import Kruspix.Kernel.Devicetree.DeviceTree
import Kruspix.Kernel.Devicetree.Fdt

/-!
# Nodes by path

A path is walked down from the root, at each segment to the first child of this name.
-/

namespace Kruspix.Kernel.Devicetree

open Lib.Bytes

namespace Node

/-- The loop of `node_by_path`. -/
def walkPath (ancestors : List Node) (addr : List Nat) (node : Node) : List String → Option NodePtr
  | [] => some ⟨node, ancestors, addr⟩
  | segment :: segments =>
      match node.children.find? fun child => child.name == segment with
      | none => none
      | some child =>
          let i := node.children.findIdx fun child => child.name == segment
          walkPath (node :: ancestors) (addr ++ [i]) child segments

end Node

namespace DeviceTree

variable (dt : DeviceTree)

def aliases : Option Node := dt.root.children.find? fun node => node.name == "aliases"

/-- The path that a name stands for: a path is its own, an alias is a property of `/aliases`. -/
def toPath (aliasOrPath : String) : Option String :=
  if aliasOrPath = "" then none
  else if '/' ∈ aliasOrPath.toList then some aliasOrPath
  else
    let properties := dt.aliases.toList.flatMap Node.properties
    match properties.find? fun prop => prop.name == aliasOrPath with
    | none => none
    | some prop =>
        match prop.value with
        | .unknown data => (cStrWithNul? data).bind str?
        | _ => none

/-- `node_by_path`: the node at a path or alias. -/
def nodeByPath (path : String) : Option NodePtr :=
  match dt.toPath path with
  | none => none
  | some path => dt.root.walkPath [] [] (Fdt.segments path)

variable {dt : DeviceTree} {path : String}

theorem toPath_of_slash (hslash : '/' ∈ path.toList) : dt.toPath path = some path := by
  have hne : path ≠ "" := by
    rintro rfl
    cases hslash
  rw [toPath, if_neg hne, if_pos hslash]

end DeviceTree

end Kruspix.Kernel.Devicetree
