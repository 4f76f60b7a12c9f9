import Kruspix.Kernel.Devicetree.DeviceTree
import Kruspix.Lib.Iterator
import Mathlib.Data.List.Lex

/-!
# The traversal of the tree

The iterator over the nodes below a node keeps the nodes that are still to be visited on a
stack. It returns all of them, each once: a node before its children, and the nodes below a
child before those below the next one.
-/

namespace Kruspix.Kernel.Devicetree

open Lib.Iterator Lib.Iterator.Iter

/-- The children of a node, with their places. -/
def NodePtr.children (ptr : NodePtr) : List NodePtr :=
  ptr.node.children.zipIdx.map fun child =>
    ⟨child.1, ptr.node :: ptr.ancestors, ptr.addr ++ [child.2]⟩

/-- The stack of `iter`, the top last. -/
abbrev NodeStack := List NodePtr

namespace NodeStack

/-- The closure that `iter` makes an iterator of. -/
def next (stack : NodeStack) : Except Fault (Option NodePtr × NodeStack) :=
  match stack.getLast? with
  | none => .ok (none, stack)
  | some ptr => .ok (some ptr, stack.dropLast ++ ptr.children.reverse)

/-- The nodes that are still to be visited. -/
def remaining (stack : NodeStack) : List NodePtr :=
  stack.reverse.flatMap fun ptr => ptr.node.iter ptr.ancestors ptr.addr

end NodeStack

theorem Node.iterChildren_eq (ancestors : List Node) (addr : List Nat) (i : Nat)
    (children : List Node) :
    iterChildren ancestors addr i children = (children.zipIdx i).flatMap fun child =>
      iter ancestors (addr ++ [child.2]) child.1 := by
  induction children generalizing i with
  | nil => rw [iterChildren, List.zipIdx_nil, List.flatMap_nil]
  | cons child children ih => rw [iterChildren, List.zipIdx_cons, List.flatMap_cons, ih]

/-- A node comes first, and then the nodes below its children. -/
theorem Node.iter_eq (ptr : NodePtr) : ptr.node.iter ptr.ancestors ptr.addr =
    ptr :: ptr.children.flatMap fun child => child.node.iter child.ancestors child.addr := by
  obtain ⟨⟨name, properties, children⟩, ancestors, addr⟩ := ptr
  rw [Node.iter, Node.iterChildren_eq, NodePtr.children, List.flatMap_map]

namespace NodeStack

variable {stack stack' : NodeStack} {top ptr : NodePtr}

theorem next_concat (stack : NodeStack) (top : NodePtr) :
    next (stack ++ [top]) = .ok (some top, stack ++ top.children.reverse) := by
  rw [next, List.getLast?_concat, List.dropLast_concat]

theorem remaining_concat (stack : NodeStack) (top : NodePtr) :
    remaining (stack ++ [top]) = top :: remaining (stack ++ top.children.reverse) := by
  rw [remaining, List.reverse_append, List.reverse_singleton, List.singleton_append,
    List.flatMap_cons, Node.iter_eq, remaining, List.reverse_append, List.reverse_reverse,
    List.flatMap_append, List.cons_append]

/-- A step takes the first one of the nodes that are still to be visited. -/
theorem remaining_next (h : next stack = .ok (some ptr, stack')) :
    remaining stack = ptr :: remaining stack' := by
  rcases List.eq_nil_or_concat' stack with rfl | ⟨stack, top, rfl⟩
  · cases h
  · rw [next_concat] at h
    cases h
    exact remaining_concat stack ptr

/-- `iter`, on its stack. -/
def iter : Iter Fault NodeStack NodePtr where
  next := next
  size stack := (remaining stack).length
  size_lt h := by
    rw [remaining_next h, List.length_cons]
    exact Nat.lt_succ_self _

/-- The iterator yields what is still to be visited. -/
theorem yields_remaining (stack : NodeStack) : Yields iter stack (remaining stack) := by
  generalize hleft : remaining stack = left
  induction left generalizing stack with
  | nil =>
      rcases List.eq_nil_or_concat' stack with rfl | ⟨stack, top, rfl⟩
      · exact .done (t := []) rfl
      · rw [remaining_concat] at hleft
        cases hleft
  | cons ptr left ih =>
      rcases List.eq_nil_or_concat' stack with rfl | ⟨stack, top, rfl⟩
      · cases hleft
      · rw [remaining_concat] at hleft
        obtain ⟨rfl, hrest⟩ := List.cons.inj hleft
        exact .more (next_concat stack top) (ih _ hrest)

end NodeStack

/-! ## The nodes of the tree -/

namespace Node

mutual

/-- The nodes below a node are those that are reached by going down from it. -/
theorem mem_iter {ancestors : List Node} {addr : List Nat} {node : Node} {ptr : NodePtr} :
    ptr ∈ iter ancestors addr node ↔ ∃ path, ptr.addr = addr ++ path ∧
      descend node ancestors path = some (ptr.node, ptr.ancestors) := by
  cases node with
  | mk name properties children =>
      rw [iter, List.mem_cons, mem_iterChildren]
      constructor
      · rintro (rfl | ⟨i, child, path, hchild, haddr, hpath⟩)
        · exact ⟨[], (List.append_nil _).symm, rfl⟩
        · refine ⟨i :: path, ?_, ?_⟩
          · rw [haddr, Nat.zero_add]
          · rw [descend]
            simp only [hchild]
            exact hpath
      · rintro ⟨path, haddr, hpath⟩
        cases path with
        | nil =>
            obtain ⟨n, ancestors', addr'⟩ := ptr
            rw [descend] at hpath
            cases hpath
            rw [List.append_nil] at haddr
            cases haddr
            exact Or.inl rfl
        | cons i path =>
            rw [descend] at hpath
            split at hpath
            · rename_i child hchild
              exact Or.inr ⟨i, child, path, hchild, by rw [haddr, Nat.zero_add], hpath⟩
            · cases hpath

theorem mem_iterChildren {ancestors : List Node} {addr : List Nat} {i : Nat}
    {children : List Node} {ptr : NodePtr} :
    ptr ∈ iterChildren ancestors addr i children ↔ ∃ j child path, children[j]? = some child ∧
      ptr.addr = addr ++ (i + j) :: path ∧
        descend child ancestors path = some (ptr.node, ptr.ancestors) := by
  cases children with
  | nil => simp [iterChildren]
  | cons child children =>
      rw [iterChildren, List.mem_append, mem_iter, mem_iterChildren]
      constructor
      · rintro (⟨path, haddr, hpath⟩ | ⟨j, c, path, hchild, haddr, hpath⟩)
        · refine ⟨0, child, path, rfl, ?_, hpath⟩
          rw [haddr, List.append_assoc, List.singleton_append, Nat.add_zero]
        · refine ⟨j + 1, c, path, hchild, ?_, hpath⟩
          rw [haddr, Nat.add_assoc, Nat.add_comm 1 j]
      · rintro ⟨j, c, path, hchild, haddr, hpath⟩
        cases j with
        | zero =>
            cases hchild
            refine Or.inl ⟨path, ?_, hpath⟩
            rw [haddr, List.append_assoc, List.singleton_append, Nat.add_zero]
        | succ j =>
            refine Or.inr ⟨j, c, path, hchild, ?_, hpath⟩
            rw [haddr, Nat.add_assoc, Nat.add_comm 1 j]

end

mutual

/-- A node comes before the nodes below it, and the nodes below a child come before those
below the next one. -/
theorem iter_pairwise (ancestors : List Node) (addr : List Nat) (node : Node) :
    (iter ancestors addr node).Pairwise fun ptr ptr' =>
      List.Lex (fun i j => i < j) ptr.addr ptr'.addr := by
  cases node with
  | mk name properties children =>
      rw [iter, List.pairwise_cons]
      refine ⟨?_, iterChildren_pairwise _ addr 0 children⟩
      intro ptr hptr
      obtain ⟨j, child, path, -, haddr, -⟩ := mem_iterChildren.mp hptr
      have hlex : List.Lex (fun i j => i < j) (addr ++ []) (addr ++ (0 + j) :: path) :=
        List.Lex.append_left _ .nil addr
      rw [List.append_nil] at hlex
      rw [haddr]
      exact hlex

theorem iterChildren_pairwise (ancestors : List Node) (addr : List Nat) (i : Nat)
    (children : List Node) :
    (iterChildren ancestors addr i children).Pairwise fun ptr ptr' =>
      List.Lex (fun i j => i < j) ptr.addr ptr'.addr := by
  cases children with
  | nil =>
      rw [iterChildren]
      exact .nil
  | cons child children =>
      rw [iterChildren, List.pairwise_append]
      refine ⟨iter_pairwise _ _ child, iterChildren_pairwise _ _ _ children, ?_⟩
      intro ptr hptr ptr' hptr'
      obtain ⟨path, haddr, -⟩ := mem_iter.mp hptr
      obtain ⟨j, c, path', -, haddr', -⟩ := mem_iterChildren.mp hptr'
      rw [haddr, haddr', List.append_assoc, List.singleton_append]
      apply List.Lex.append_left
      exact .rel (by omega)

end

end Node

end Kruspix.Kernel.Devicetree
