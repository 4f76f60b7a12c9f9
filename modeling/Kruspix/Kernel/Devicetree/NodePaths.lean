import Kruspix.Kernel.Devicetree.NodeByPath
import Kruspix.Kernel.Devicetree.Traversal

/-!
# The paths of nodes

The path of a node has the names on the way from the root. Walking it down finds the node
again when the names of siblings differ.
-/

namespace Kruspix.Kernel.Devicetree

/-! ## The segments of a path -/

/-- The path with these segments. -/
def joinPath (names : List String) : String :=
  if names.isEmpty then "/" else names.foldl (fun path name => path ++ "/" ++ name) ""

theorem toList_foldl_slash (names : List String) (path : String) :
    (names.foldl (fun path name => path ++ "/" ++ name) path).toList =
      path.toList ++ names.flatMap fun name => '/' :: name.toList := by
  induction names generalizing path with
  | nil => rw [List.foldl_nil, List.flatMap_nil, List.append_nil]
  | cons name names ih =>
      rw [List.foldl_cons, ih, List.flatMap_cons, String.toList_append, String.toList_append,
        List.append_assoc, List.append_assoc]
      rfl

theorem flatMap_slash_eq_intercalate (names : List String) :
    (names.flatMap fun name => '/' :: name.toList) =
      ['/'].intercalate ([] :: names.map String.toList) := by
  induction names with
  | nil => rw [List.flatMap_nil, List.map_nil, List.intercalate_singleton]
  | cons name names ih =>
      rw [List.flatMap_cons, List.map_cons, List.intercalate_cons_cons, ih, List.nil_append]
      cases names with
      | nil => simp only [List.map_nil, List.intercalate_singleton, List.append_nil,
          List.singleton_append]
      | cons name' names =>
          rw [List.map_cons, List.intercalate_cons_cons, List.intercalate_cons_cons,
            List.nil_append, List.append_assoc]
          rfl

/-- A path is cut into the segments it was made of. -/
theorem segments_joinPath {names : List String}
    (hnames : ∀ name ∈ names, name ≠ "" ∧ '/' ∉ name.toList) :
    Fdt.segments (joinPath names) = names := by
  cases names with
  | nil => decide +kernel
  | cons name names =>
      have hslash : ∀ l ∈ [] :: (name :: names).map String.toList, '/' ∉ l := by
        intro l hl
        rcases List.mem_cons.mp hl with rfl | hl
        · exact List.not_mem_nil
        · obtain ⟨n, hn, rfl⟩ := List.mem_map.mp hl
          exact (hnames n hn).2
      have hsplit := List.splitOn_intercalate '/' hslash (List.cons_ne_nil _ _)
      rw [← flatMap_slash_eq_intercalate] at hsplit
      have hback : ((name :: names).map String.toList).map String.ofList = name :: names := by
        rw [List.map_map, List.map_congr_left (g := id), List.map_id]
        intro n _
        exact String.ofList_toList
      have hall : (name :: names).filter (fun s => s ≠ "") = name :: names := by
        rw [List.filter_eq_self]
        intro n hn
        exact decide_eq_true (hnames n hn).1
      rw [Fdt.segments, split, joinPath, List.isEmpty_cons, if_neg Bool.false_ne_true,
        toList_foldl_slash, String.toList_empty, List.nil_append]
      rw [hsplit, List.map_cons, List.filter_cons_of_neg (by decide +kernel), hback]
      exact hall

/-- Every path that is made has a separator. -/
theorem slash_mem_joinPath (names : List String) : '/' ∈ (joinPath names).toList := by
  cases names with
  | nil => decide +kernel
  | cons name names =>
      rw [joinPath, List.isEmpty_cons, if_neg Bool.false_ne_true, toList_foldl_slash,
        List.flatMap_cons]
      exact List.mem_append_right _ (List.mem_append_left _ List.mem_cons_self)

/-! ## The way down -/

/-- The children of a node have names, without separators, and no two have the same. -/
structure Node.NamesChildren (node : Node) : Prop where
  ne_empty : ∀ child ∈ node.children, child.name ≠ ""
  no_slash : ∀ child ∈ node.children, '/' ∉ child.name.toList
  nodup : (node.children.map Node.name).Nodup

variable {node child n : Node} {ancestors ancestors' : List Node} {addr path : List Nat} {i : Nat}

/-- The first one of its name in a list of different names is the one at its index. -/
theorem find?_name_of_nodup {nodes : List Node} (hnodup : (nodes.map Node.name).Nodup)
    (hchild : nodes[i]? = some child) :
    nodes.find? (fun c => c.name == child.name) = some child ∧
      nodes.findIdx (fun c => c.name == child.name) = i := by
  induction nodes generalizing i with
  | nil => cases hchild
  | cons c nodes ih =>
      rw [List.map_cons, List.nodup_cons] at hnodup
      rw [List.find?_cons, List.findIdx_cons]
      cases i with
      | zero =>
          cases hchild
          rw [beq_self_eq_true]
          exact ⟨rfl, rfl⟩
      | succ i =>
          have hmem : child.name ∈ nodes.map Node.name :=
            List.mem_map_of_mem (List.mem_of_getElem? hchild)
          have hne : (c.name == child.name) = false := by
            rw [beq_eq_false_iff_ne]
            intro heq
            exact hnodup.1 (heq ▸ hmem)
          obtain ⟨hfind, hindex⟩ := ih hnodup.2 hchild
          rw [hne]
          exact ⟨hfind, congrArg Nat.succ hindex⟩

/-- Below a node, the names on the way lead back to the place. -/
theorem Node.walkPath_descend
    (hnames : ∀ ptr ∈ node.iter ancestors addr, ptr.node.NamesChildren)
    (hpath : node.descend ancestors path = some (n, ancestors')) :
    ∃ names, (∀ name ∈ names, name ≠ "" ∧ '/' ∉ name.toList) ∧
      (n :: ancestors').map Node.name = names.reverse ++ (node :: ancestors).map Node.name ∧
        node.walkPath ancestors addr names = some ⟨n, ancestors', addr ++ path⟩ := by
  induction path generalizing node ancestors addr with
  | nil =>
      cases hpath
      refine ⟨[], nofun, rfl, ?_⟩
      rw [walkPath, List.append_nil]
  | cons i path ih =>
      rw [descend] at hpath
      split at hpath
      · rename_i child hchild
        have hself : node.NamesChildren :=
          hnames ⟨node, ancestors, addr⟩ (mem_iter.mpr ⟨[], (List.append_nil _).symm, rfl⟩)
        have hbelow : ∀ ptr ∈ child.iter (node :: ancestors) (addr ++ [i]),
            ptr.node.NamesChildren := by
          intro ptr hptr
          obtain ⟨path', haddr, hdescend⟩ := mem_iter.mp hptr
          apply hnames ptr
          refine mem_iter.mpr ⟨i :: path', ?_, ?_⟩
          · rw [haddr, List.append_assoc, List.singleton_append]
          · rw [descend, hchild]
            exact hdescend
        obtain ⟨names, hnonempty, hway, hwalk⟩ := ih hbelow hpath
        obtain ⟨hfind, hindex⟩ := find?_name_of_nodup hself.nodup hchild
        have hmem := List.mem_of_getElem? hchild
        refine ⟨child.name :: names, ?_, ?_, ?_⟩
        · rw [List.forall_mem_cons]
          exact ⟨⟨hself.ne_empty child hmem, hself.no_slash child hmem⟩, hnonempty⟩
        · rw [hway, List.reverse_cons, List.append_assoc, List.map_cons, List.singleton_append]
        · rw [walkPath, hfind]
          simp only [hindex]
          rw [hwalk, List.append_assoc, List.singleton_append]
      · cases hpath

/-- What a walk finds is a node below. -/
theorem Node.walkPath_mem_iter {names : List String} {ptr : NodePtr}
    (h : node.walkPath ancestors addr names = some ptr) : ptr ∈ node.iter ancestors addr := by
  induction names generalizing node ancestors addr with
  | nil =>
      cases h
      exact mem_iter.mpr ⟨[], (List.append_nil _).symm, rfl⟩
  | cons name names ih =>
      rw [walkPath] at h
      split at h
      · cases h
      · rename_i child hchild
        obtain ⟨path, haddr, hdescend⟩ := mem_iter.mp (ih h)
        rw [List.find?_eq_getElem?_findIdx] at hchild
        refine mem_iter.mpr ⟨node.children.findIdx (fun c => c.name == name) :: path, ?_, ?_⟩
        · rw [haddr, List.append_assoc, List.singleton_append]
        · rw [descend, hchild]
          exact hdescend

/-- The node of the path of a node is the node. -/
theorem DeviceTree.nodeByPath_path {dt : DeviceTree} {ptr : NodePtr} (hroot : dt.root.name = "")
    (hnames : ∀ ptr ∈ dt.nodes, ptr.node.NamesChildren) (hptr : ptr ∈ dt.nodes) :
    dt.nodeByPath ptr.path = some ptr := by
  obtain ⟨path, haddr, hpath⟩ := Node.mem_iter.mp hptr
  obtain ⟨names, hnonempty, hway, hwalk⟩ := Node.walkPath_descend hnames hpath
  have hsegments : ((ptr.node :: ptr.ancestors).map Node.name).filter (fun name => name ≠ "") =
      names.reverse := by
    rw [hway, List.map_cons, hroot, List.filter_append, List.filter_eq_self.mpr]
    · exact List.append_nil _
    · intro name hname
      exact decide_eq_true (hnonempty name (List.mem_reverse.mp hname)).1
  have hjoin : ptr.path = joinPath names := by
    rw [NodePtr.path, hsegments, List.isEmpty_reverse, List.reverse_reverse, joinPath]
  rw [nodeByPath, hjoin, toPath_of_slash (slash_mem_joinPath names)]
  simp only [segments_joinPath hnonempty, hwalk]
  rw [← haddr]

end Kruspix.Kernel.Devicetree
