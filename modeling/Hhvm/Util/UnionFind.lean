import Hhvm.Infra.Partition

/-!
# `UnionFind`

`hphp/util/union-find.h` の `UnionFind<T>`。節点は挿入順に番号を持ち、`nodes[i]` に親の番号と
大きさを持つ。`indices` は節点から番号への `F14FastMap` で、ここでは対の列で表す。

* `find` は path halving で親を祖父に付け替えながら根まで登る。C++ の `while` には上限がないので、
  ここでは `nodes.size() + 1` 回の燃料を与え、燃料が尽きれば `none` とする。到達可能な状態で
  尽きないことは `Hhvm.UnionFind.find_spec` が示す。
* `merge` は `indices.at` で番号を引き（なければ `std::out_of_range` で `none`）、大きい木の根の
  下に小さい木の根を付ける。
* `forEachGroup` は `indices` を巡る順 `order`（`F14FastMap` の順は決まっていない）を引数に取り、
  `f` に渡す組の列を返す。
-/

namespace Hhvm

/-- `struct Node { size_t parent; size_t size; }`。 -/
structure UnionFind.Node where
  parent : Nat
  size : Nat
deriving DecidableEq, Repr

/-- `std::vector<Node> nodes` と `folly::F14FastMap<T, size_t> indices`。 -/
structure UnionFind (T : Type) where
  nodes : List UnionFind.Node
  indices : List (T × Nat)

namespace UnionFind

variable {T : Type} [DecidableEq T]

/-! ## 節点の列 -/

/-- `nodes[j].parent`。範囲外の番号は根として読む（コードは範囲外を読まない）。 -/
def parentOf (nodes : List Node) (j : Nat) : Nat := (nodes[j]?.map Node.parent).getD j

/-- `nodes[j].size`。 -/
def sizeAt (nodes : List Node) (j : Nat) : Nat := (nodes[j]?.map Node.size).getD 0

/-- `nodes[j].parent = q`。 -/
def setParent (nodes : List Node) (j q : Nat) : List Node :=
  nodes.modify j fun nd => { nd with parent := q }

/-- `nodes[j].size += d`。 -/
def addSize (nodes : List Node) (j d : Nat) : List Node :=
  nodes.modify j fun nd => { nd with size := nd.size + d }

/-! ## 操作 -/

/-- `insert(node)`：新しい節点を自分だけの集合にして、`indices.emplace(node, index)` の返す番号を
返す。すでにある節点なら `emplace` は何もせず、前の番号を返す（`nodes` には積まれる）。 -/
def insert (uf : UnionFind T) (node : T) : UnionFind T × Nat :=
  let index := uf.nodes.length
  let nodes := uf.nodes ++ [⟨index, 1⟩]
  match uf.indices.lookup node with
  | some i => (⟨nodes, uf.indices⟩, i)
  | none => (⟨nodes, uf.indices ++ [(node, index)]⟩, index)

/-- `lookup(node)`。 -/
def lookup (uf : UnionFind T) (node : T) : Option Nat := uf.indices.lookup node

/-- `find` の `while` を燃料で回す：親が自分でなければ、親を祖父に付け替えて祖父へ進む。 -/
def findLoop : Nat → List Node → Nat → Option (List Node × Nat)
  | 0, _, _ => none
  | fuel + 1, nodes, index =>
    if parentOf nodes index ≠ index then
      let grandparent := parentOf nodes (parentOf nodes index)
      findLoop fuel (setParent nodes index grandparent) grandparent
    else some (nodes, index)

/-- `find(index)`。 -/
def find (nodes : List Node) (index : Nat) : Option (List Node × Nat) :=
  findLoop (nodes.length + 1) nodes index

/-- `merge` の後半：根が違えば、小さい木の根を大きい木の根の下に付けて大きさを足す。 -/
def linkRoots (nodes : List Node) (index1 index2 : Nat) : List Node :=
  if index1 = index2 then nodes
  else
    let (index1, index2) :=
      if sizeAt nodes index1 < sizeAt nodes index2 then (index2, index1) else (index1, index2)
    let nodes := setParent nodes index2 index1
    addSize nodes index1 (sizeAt nodes index2)

/-- `merge(node1, node2)`。 -/
def merge (uf : UnionFind T) (node1 node2 : T) : Option (UnionFind T) :=
  if node1 = node2 then some uf
  else do
    let i1 ← uf.indices.lookup node1
    let (nodes, index1) ← find uf.nodes i1
    let i2 ← uf.indices.lookup node2
    let (nodes, index2) ← find nodes i2
    return { uf with nodes := linkRoots nodes index1 index2 }

/-- `countGroups()`：自分が親の節点の数。 -/
def countGroups (uf : UnionFind T) : Nat :=
  (List.range uf.nodes.length).countP fun i => parentOf uf.nodes i = i

/-- `forEachGroup` の `for`：`groups[find(pair.second)].emplace_back(pair.first)`。 -/
def forEachGroupLoop : List (T × Nat) → List Node → List (Nat × List T) →
    Option (List Node × List (Nat × List T))
  | [], nodes, groups => some (nodes, groups)
  | (node, index) :: rest, nodes, groups => do
    let (nodes, root) ← find nodes index
    forEachGroupLoop rest nodes (Infra.Partition.push groups root node)

/-- `forEachGroup(f)`：`indices` を `order` の順に巡り、`f` に渡す組を順に返す。 -/
def forEachGroup (uf : UnionFind T) (order : List (T × Nat)) :
    Option (UnionFind T × List (List T)) := do
  let (nodes, groups) ← forEachGroupLoop order uf.nodes []
  return ({ uf with nodes }, groups.map Prod.snd)

end UnionFind

end Hhvm
