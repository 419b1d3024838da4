import Hhvm.Infra.Word64
import Mathlib.Logic.Function.Basic

/-!
# `RadixMap`

`hphp/util/radix-map.h`：メモリのブロック `[ptr, ptr + size)`（`ptr` と `size` は
`Align = 2 ^ LgAlign` の倍数）を、ポインタのビットで引く木に入れる。ポインタを `LgAlign` ビット
右にずらしたものが key（`toKey`）で、`scale` の段の node では key の `scale` ビット目から
`LgRadix` ビットが slot の番号（`index`）。slot は空か、ブロックの大きさ（leaf）か、子の node。
どのブロックも、その先頭の key の路の上の slot に leaf として入る。

* 根は `root`（`m_root`、null が `none`）、その段は `rootScale`、木のすべての key に共通する上の
  ビットは `rootPrefix`。
* node は slot の並びで、`Nat → Slot` とする（読むのは `Radix` 個）。
* `insert` は、`k` が根の範囲になければ、またはブロックが根より上の段に収まるなら、根の上に
  node を足して木を深くし（`deepen`）、ブロックの収まる一番上の段（`scale` が key と大きさの
  最下位の立っているビット以下の段）に leaf を置く（`insertSlot`）。途中に子の node がなければ
  作り、leaf を置く slot の子の木は捨てる。
* `iterate` と `find` は、根から key の路を下り、一つの node の slot を前へ（後へ）見ていく。
  node の端まで来たら、そこから根へ戻ってやり直す（`iterRoot`、`findRoot`）。

`size_t` は `Nat` で持ち、ビット演算は `Infra.Word64` のもの。`find` が `k` から 1 を引くところは
`2 ^ 64` の剰余をとる（key が 0 のとき `2 ^ 64 - 1` に回り、それで loop が終わる）。ほかの足し算は
`size_t` の範囲に収まるとする。loop にはどれも fuel を持たせる。`destroy_node` が node を解放すること
と `m_node_count` は、値として見えないので持たない。
-/

namespace Hhvm

open Infra.Word64

namespace RadixMap

/-- `Node::slots[i]`：空（`0`）、leaf（ブロックの大きさ）、子の node。 -/
inductive Slot where
  | empty
  | leaf (size : Nat)
  | child (slots : Nat → Slot)

/-- `struct Node`：slot の並び（`Radix` 個）。 -/
abbrev Node := Nat → Slot

/-- `make_node()`：slot がすべて空の node（`calloc`）。 -/
def makeNode : Node := fun _ => .empty

/-- `insert` の `n->child(i)` と、それが null のときの `make_node()`。leaf の slot を下ることは、
`insert` の前提（既にあるブロックと重ならない）のもとでは起きない。 -/
def Slot.childOrNew : Slot → Node
  | .child c => c
  | _ => makeNode

end RadixMap

open RadixMap

/-- `RadixMap<T, LgAlign, LgRadix>`：`m_root`、`m_root_prefix`、`m_root_scale`。 -/
structure RadixMap (LgAlign LgRadix : Nat) where
  root : Option Node
  rootPrefix : Nat
  rootScale : Nat

namespace RadixMap

/-! ## key のビット -/

section Static

variable (LgAlign LgRadix : Nat)

/-- `Radix = 1 << LgRadix`。 -/
def radix : Nat := 1 <<< LgRadix

/-- `EmptyPrefix = ~0ul`：どのポインタの上のビットにもならない。 -/
def emptyPrefix : Nat := bnot 0

/-- `toKey(ptr)`。 -/
def toKey (ptr : Nat) : Nat := ptr >>> LgAlign

/-- `slot_size(scale)`：`scale` の段の slot が受け持つ key の数。 -/
def slotSize (scale : Nat) : Nat := 1 <<< scale

/-- `index(k, scale)`：`scale` ビット目から `LgRadix` ビット。 -/
def index (k scale : Nat) : Nat := (k >>> scale) &&& (radix LgRadix - 1)

/-- `upper(k, scale)`：`scale + LgRadix` ビット目から上。 -/
def upper (k scale : Nat) : Nat := k &&& bnot (slotSize (scale + LgRadix) - 1)

/-- `lower(ptr, scale)`：下の `scale + LgAlign` ビット。 -/
def lower (ptr scale : Nat) : Nat := ptr &&& ((1 <<< (scale + LgAlign)) - 1)

/-! ## `get` と `erase` の loop -/

/-- `get` の loop：`scale` の段の slot `s` を見る。leaf なら `ptr` がその slot の先頭のときだけ
大きさを返し、子があれば一つ下の段の `k` の slot へ進み、空なら 0。 -/
def getSlot (ptr k : Nat) : Nat → Slot → Nat
  | scale, .leaf size => if lower LgAlign ptr scale = 0 then size else 0
  | scale, .child c => getSlot ptr k (scale - LgRadix) (c (index LgRadix k (scale - LgRadix)))
  | _, .empty => 0

/-- `erase` の loop：`get` と同じに下り、`ptr` から始まる leaf を空にして、その大きさを返す。 -/
def eraseSlot (ptr k : Nat) : Nat → Slot → Slot × Nat
  | scale, .leaf size => if lower LgAlign ptr scale = 0 then (.empty, size) else (.leaf size, 0)
  | scale, .child c =>
    let i := index LgRadix k (scale - LgRadix)
    let r := eraseSlot ptr k (scale - LgRadix) (c i)
    (.child (Function.update c i r.1), r.2)
  | _, .empty => (.empty, 0)

/-! ## `insert` の loop -/

/-- `while (m_root_scale + LgRadix <= max_scale) m_root_scale += LgRadix;` -/
def raiseScale (maxScale : Nat) : Nat → Nat → Nat
  | 0, scale => scale
  | fuel + 1, scale =>
    if scale + LgRadix ≤ maxScale then raiseScale maxScale fuel (scale + LgRadix) else scale

/-- `insert` の二つ目の loop：`scale` の段の slot `s` に、key `k` から始まる大きさ `size` の
ブロックを入れた slot。`scale <= max_scale` なら leaf にし（子の木は捨てる）、そうでなければ子の
node（なければ作る）の `k` の slot へ下る。 -/
def insertSlot (k size maxScale : Nat) : Nat → Nat → Slot → Slot
  | 0, _, s => s
  | fuel + 1, scale, s =>
    if scale ≤ maxScale then .leaf size
    else
      let c := s.childOrNew
      let i := index LgRadix k (scale - LgRadix)
      .child (Function.update c i (insertSlot k size maxScale fuel (scale - LgRadix) (c i)))

/-! ## `iterate` と `find` の内側の loop -/

/-- `iterate` の内側の loop `for (size_t i = index(k, scale); i < Radix;)`：`n` は今の node、
`scale` はその段。leaf なら `fn(k << LgAlign, size)`（`out` に足す）を呼んでブロックの後ろへ、
子があれば `k` のまま一つ下の段へ、空なら次の slot の先頭へ進む。 -/
def iterNode : Nat → Node → Nat → Nat → Nat → List (Nat × Nat) → List (Nat × Nat) × Nat
  | 0, _, _, _, k, out => (out, k)
  | fuel + 1, n, scale, i, k, out =>
    if i < radix LgRadix then
      match n i with
      | .leaf size =>
        iterNode fuel n scale (i + (size >>> (scale + LgAlign))) (k + (size >>> LgAlign))
          (out ++ [(k <<< LgAlign, size)])
      | .child c => iterNode fuel c (scale - LgRadix) (index LgRadix k (scale - LgRadix)) k out
      | .empty =>
        iterNode fuel n scale (i + 1) ((k + slotSize scale) &&& bnot (slotSize scale - 1)) out
    else (out, k)

/-- `find` の内側の loop `for (ssize_t i = index(k, scale); i >= 0;)`：leaf なら `k` をその slot の
先頭にし、`needle` がブロックの中なら `{k << LgAlign, size}`、そうでなければ `{nullptr, 0}` を
返す（`some`）。子があれば `k` のまま下り、空なら一つ前の slot の最後の key へ戻る。`i < 0` で
抜けたら `none` と、そのときの `k`。 -/
def findNode (needle : Nat) : Nat → Node → Nat → Int → Nat → Option (Nat × Nat) × Nat
  | 0, _, _, _, k => (none, k)
  | fuel + 1, n, scale, i, k =>
    if 0 ≤ i then
      match n i.toNat with
      | .leaf size =>
        let k := k &&& bnot (slotSize scale - 1)
        (some (if needle ≥ k + (size >>> LgAlign) then (0, 0) else (k <<< LgAlign, size)), k)
      | .child c =>
        findNode needle fuel c (scale - LgRadix) (index LgRadix k (scale - LgRadix)) k
      | .empty =>
        findNode needle fuel n scale (i - 1)
          (((k &&& bnot (slotSize scale - 1)) + (2 ^ 64 - 1)) % 2 ^ 64)
    else (none, k)

/-- 内側の loop の fuel：段ごとに slot の数と、下る一回。 -/
def innerFuel (scale : Nat) : Nat := (scale + 1) * (radix LgRadix + 1)

/-- `iterate` の外側の loop `for (size_t k = m_root_prefix, e = ...; k < e;)`。 -/
def iterRoot (n : Node) (scale e : Nat) : Nat → Nat → List (Nat × Nat) → List (Nat × Nat)
  | 0, _, out => out
  | fuel + 1, k, out =>
    if k < e then
      let r := iterNode LgAlign LgRadix (innerFuel LgRadix scale) n scale (index LgRadix k scale) k out
      iterRoot n scale e fuel r.2 r.1
    else out

/-- `find` の外側の loop `for (auto k = ...; upper(k, m_root_scale) == m_root_prefix;)`。 -/
def findRoot (n : Node) (scale rootPrefix needle : Nat) : Nat → Nat → Nat × Nat
  | 0, _ => (0, 0)
  | fuel + 1, k =>
    if upper LgRadix k scale = rootPrefix then
      match findNode LgAlign LgRadix needle (innerFuel LgRadix scale) n scale
          (index LgRadix k scale) k with
      | (some res, _) => res
      | (none, k) => findRoot n scale rootPrefix needle fuel k
    else (0, 0)

end Static

/-! ## 操作 -/

variable {LgAlign LgRadix : Nat}

/-- 初めの状態：`m_root{nullptr}`、`m_root_prefix{EmptyPrefix}`、`m_root_scale{0}`。 -/
def init : RadixMap LgAlign LgRadix := ⟨none, emptyPrefix, 0⟩

/-- `empty()`。 -/
def empty (m : RadixMap LgAlign LgRadix) : Bool := m.root.isNone

/-- `clear()`：根があれば木を捨てて初めの状態に戻す。 -/
def clear (m : RadixMap LgAlign LgRadix) : RadixMap LgAlign LgRadix :=
  match m.root with
  | some _ => init
  | none => m

/-- `get(ptr)`：`ptr` から始まるブロックの大きさ。なければ 0。 -/
def get (m : RadixMap LgAlign LgRadix) (ptr : Nat) : Nat :=
  let k := toKey LgAlign ptr
  if upper LgRadix k m.rootScale = m.rootPrefix then
    match m.root with
    | some n => getSlot LgAlign LgRadix ptr k m.rootScale (n (index LgRadix k m.rootScale))
    | none => 0
  else 0

/-- `erase(ptr)`：`ptr` から始まるブロックを消し、その大きさを返す。なければ何もせず 0。 -/
def erase (m : RadixMap LgAlign LgRadix) (ptr : Nat) : RadixMap LgAlign LgRadix × Nat :=
  let k := toKey LgAlign ptr
  if upper LgRadix k m.rootScale = m.rootPrefix then
    match m.root with
    | some n =>
      let i := index LgRadix k m.rootScale
      let r := eraseSlot LgAlign LgRadix ptr k m.rootScale (n i)
      ({ m with root := some (Function.update n i r.1) }, r.2)
    | none => (m, 0)
  else (m, 0)

/-- `insert` の最初の loop の本体（木が空でないとき）：新しい根の node の
`index(m_root_prefix, scale)` 番目の slot に古い根 `r` を置き、段を `LgRadix` 上げる。 -/
def grow (m : RadixMap LgAlign LgRadix) (r : Node) : RadixMap LgAlign LgRadix :=
  let scale := m.rootScale + LgRadix
  ⟨some (Function.update makeNode (index LgRadix m.rootPrefix scale) (.child r)),
    upper LgRadix m.rootPrefix scale, scale⟩

/-- `insert` の最初の loop：`k` が根の範囲になければ、またはブロックが根の段より上に収まるなら、
根の上に node を足す。木が空なら根を作り、ブロックが収まる段まで上げて終わる。 -/
def deepen (k maxScale : Nat) : Nat → RadixMap LgAlign LgRadix → RadixMap LgAlign LgRadix
  | 0, m => m
  | fuel + 1, m =>
    if upper LgRadix k m.rootScale ≠ m.rootPrefix ∨ m.rootScale + LgRadix ≤ maxScale then
      match m.root with
      | none =>
        let scale := raiseScale LgRadix maxScale 64 m.rootScale
        ⟨some makeNode, upper LgRadix k scale, scale⟩
      | some r => deepen k maxScale fuel (m.grow r)
    else m

/-- `insert(ptr, size)`：`[ptr, ptr + size)` を入れる。`max_scale` は、key と `size / Align` の
どちらも割り切る一番大きい `2 ^ scale` の `scale`。 -/
def insert (m : RadixMap LgAlign LgRadix) (ptr size : Nat) : RadixMap LgAlign LgRadix :=
  let k := toKey LgAlign ptr
  let maxScale := ffs (k ||| (size >>> LgAlign)) - 1
  let m := deepen k maxScale 64 m
  match m.root with
  | some n =>
    let i := index LgRadix k m.rootScale
    { m with root := some (Function.update n i
        (insertSlot LgRadix k size maxScale (m.rootScale + 1) m.rootScale (n i))) }
  | none => m

/-- `iterate(fn)`：ブロックを番地の順に `fn(ptr, size)` に渡す。渡した組の列を返す。 -/
def iterate (m : RadixMap LgAlign LgRadix) : List (Nat × Nat) :=
  match m.root with
  | some n =>
    let e := m.rootPrefix + slotSize (m.rootScale + LgRadix)
    iterRoot LgAlign LgRadix n m.rootScale e (e - m.rootPrefix + 1) m.rootPrefix []
  | none => []

/-- `countBlocks()`。 -/
def countBlocks (m : RadixMap LgAlign LgRadix) : Nat := m.iterate.length

/-- `find(ptr)`：`ptr` を含むブロック `{ptr, size}`。なければ `{nullptr, 0}`。木が空なら、
根の範囲の検査で loop に入らない。 -/
def find (m : RadixMap LgAlign LgRadix) (ptr : Nat) : Nat × Nat :=
  let e := (m.rootPrefix + slotSize (m.rootScale + LgRadix) - 1) % 2 ^ 64
  let needle := toKey LgAlign ptr
  match m.root with
  | some n =>
    findRoot LgAlign LgRadix n m.rootScale m.rootPrefix needle
      (slotSize (m.rootScale + LgRadix) + 1) (min needle e)
  | none => (0, 0)

/-- `TEST(RadixMap, get)`。 -/
example : ((init : RadixMap 2 4).insert 0 8).get 0 = 8 ∧
    ((init : RadixMap 2 4).insert 0 8).get 3 = 0 ∧
    ((init : RadixMap 2 4).insert 0 8).get 4 = 0 := by decide

/-- `TEST(RadixMap, insert_destroy)`。 -/
example : (((((init : RadixMap 2 4).insert 0 4).insert 64 4).erase 0).1.insert 0 64).countBlocks
    = 2 := by decide

/-- `TEST(RadixMap, insert_deepen)`。 -/
example : (((init : RadixMap 4 8).insert 0x7fffec0ee000 0x200000).insert 0x7fffc7b7f000
    0x14000000).iterate = [(0x7fffc7b7f000, 0x14000000), (0x7fffec0ee000, 0x200000)] := by
  set_option maxRecDepth 4000 in decide

end RadixMap

end Hhvm
