import RelayKeeper.Files.Tree

/-!
# Trees to rehearse in
-/

namespace RelayKeeper.FileTree

/-- Puts a file or, without content, a directory at a path, after making the directories that
contain it. What stands in the way stays. -/
def provide (t : FileTree) (p : Path) (content : Option ByteArray) : FileTree :=
  match content with
  | none => (t.makeDirectories p).2
  | some content =>
    let t := match p.parent? with
      | some parent => (t.makeDirectories parent).2
      | none => t
    (t.write p content).toOption.getD t

/-- The files and the empty directories below a place, with their names from there. -/
def leaves (t : FileTree) (place : Place) : List (Place × Node) :=
  t.nodes.toList.filterMap fun (other, node) =>
    if place.isPrefixOf other && other != place then
      let isLeaf := match node with
        | .file .. => true
        | .directory => !t.nodes.keys.any fun below => other.isPrefixOf below && below != other
      if isLeaf then some (other.drop place.length, node) else none
    else none

def leafContent : Node → Option ByteArray
  | .file content _ => some content
  | .directory => none

/-- The leaves below a place that an earlier tree does not have, or has with another content. -/
def changedLeaves (before after : FileTree) (place : Place) : List (Place × Node) :=
  (after.leaves place).filter fun (name, node) =>
    (before.node? (place ++ name)).map leafContent != some (leafContent node)

end RelayKeeper.FileTree
