import Hhvm.Infra.ParallelCopy

/-!
# `doRegMoves`

`hphp/runtime/vm/jit/reg-algorithms.{h,cpp}`：`moves`（`MovePlan = PhysReg::Map<PhysReg>`）は行き先
ごとの元で、`InvalidReg` を `none` とする。`doRegMoves(moves, rTmp)` は、元の値をそれぞれの行き先に
入れる移動（`Move`）と交換（`Xchg`）の列を返す。元が別の移動の行き先でもよいので、行き先から元へ
辺を引いたグラフは、閉路と、閉路や行き止まりへ向かう木からなる。

ソースの四つの loop を一つずつ定義にする。

1. 自分自身への移動を消し、`index` を `-1` にする（`dropSelfMoves`）。
2. 訪問していない各レジスタから元を辿る路を歩き、`outDegree`（そのレジスタを読む行き先の数）を
   数え、閉路を見つける（`walkPath`、`findCycles`）。辿り着いた先が今の路の上
   （`index[next] >= index[reg]`）なら閉路で、長さは `nextIndex - index[next]`。
3. 読む者のいないレジスタを worklist に入れ、取り出すたびに移動を出して元の `outDegree` を減らす
   （`drainQueue`）。閉路の上のレジスタは 0 にならないので、ここでは出ない。
4. 閉路ごとに、長さが 2 か 3 で SIMD のレジスタがなければ交換で、そうでなければ `rTmp` を使って
   回す（`emitCycle`）。

`PhysReg::Map` の範囲 for は決まった順にレジスタを辿る。その順を `Regs.keys` に、
`PhysReg::isSIMD()` を `Regs.isSIMD` にとる。loop にはどれも fuel を持たせ、fuel はレジスタの数に
する。それで足りることは `Jit.Properties.RegMovesWalk` などで示す（ソースの `assertx(nextIndex < N)`
と `assertx(qBack < N)` に当たる）。

`insertCopiesAt`（`vasm-xls.cpp`）は、`CopyPlan` から `moves` を作って `doRegMoves` を呼び、
`Move` を `copy{src, dst}` に、`Xchg` を `copy2{src, dst, dst, src}` にする。vasm の copy は並列に
行う（`vasm-instr.h`）。
-/

namespace Hhvm.Jit

open Function Infra.ParallelCopy

variable {R : Type} [DecidableEq R]

/-- `PhysReg::Map` の範囲 for が辿るレジスタの順（`keys`）と `PhysReg::isSIMD()`。 -/
structure Regs (R : Type) where
  keys : List R
  isSIMD : R → Bool

/-- `MoveInfo::Kind`。 -/
inductive MoveInfo.Kind
  | Move
  | Xchg
deriving DecidableEq, Repr

/-- `struct MoveInfo`。 -/
structure MoveInfo (R : Type) where
  m_kind : MoveInfo.Kind
  m_src : R
  m_dst : R
deriving DecidableEq, Repr

/-- `MovePlan`：行き先ごとの元。`InvalidReg` が `none`。 -/
abbrev MovePlan (R : Type) := R → Option R

/-- `struct CycleInfo`：閉路の上の一つのレジスタと、閉路の長さ。 -/
structure CycleInfo (R : Type) where
  node : R
  length : Int
deriving DecidableEq, Repr

/-! ## 1. 自分自身への移動 -/

/-- 最初の loop：`if (reg == moves[reg]) moves[reg] = InvalidReg; index[reg] = -1;`。
`index` は `PhysReg::Map<int>` で、どのレジスタも 0 から始まる。 -/
def dropSelfMoves (keys : List R) (moves : MovePlan R) : MovePlan R × (R → Int) :=
  keys.foldl (fun mi reg =>
    (if mi.1 reg = some reg then update mi.1 reg none else mi.1, update mi.2 reg (-1)))
    (moves, fun _ => 0)

/-! ## 2. 路を歩いて閉路を見つける -/

/-- 二つ目の loop が持つ状態：`index`、`outDegree`、`nextIndex` と、見つけた閉路
（`cycles[0..num_cycles)`）。 -/
structure Walk (R : Type) where
  index : R → Int
  outDegree : R → Int
  nextIndex : Int
  cycles : List (CycleInfo R)

/-- `for (auto node = reg;;)`：`node` に番号を振り、元 `next` があればその `outDegree` を増やし、
`next` が未訪問なら辿り続け、今の路の上なら閉路を記録して止まる。 -/
def walkPath (moves : MovePlan R) (reg : R) : Nat → R → Walk R → Walk R
  | 0, _, w => w
  | fuel + 1, node, w =>
    let w := { w with index := update w.index node w.nextIndex, nextIndex := w.nextIndex + 1 }
    match moves node with
    | none => w
    | some next =>
      let w := { w with outDegree := update w.outDegree next (w.outDegree next + 1) }
      if w.index next < 0 then walkPath moves reg fuel next w
      else if w.index next ≥ w.index reg then
        { w with cycles := w.cycles ++ [⟨next, w.nextIndex - w.index next⟩] }
      else w

/-- 二つ目の loop：訪問したレジスタは飛ばし（`if (index[reg] >= 0) continue;`）、
そうでなければそこから路を歩く。 -/
def findCycles (keys : List R) (moves : MovePlan R) (fuel : Nat) (w : Walk R) : Walk R :=
  keys.foldl (fun w reg => if w.index reg ≥ 0 then w else walkPath moves reg fuel reg w) w

/-! ## 3. 閉路にない移動 -/

/-- 三つ目の loop：`q` の先頭を取り、元 `nextNode` があれば移動を出してその `outDegree` を減らし、
0 になれば `q` の後ろに足す（`enque`）。ソースは `q` を配列と添字 `i` で持つが、ここでは
取り出した分を捨てた列で持つ。 -/
def drainQueue (moves : MovePlan R) : Nat → List R → (R → Int) → List (MoveInfo R) →
    (R → Int) × List (MoveInfo R)
  | 0, _, outDegree, howTo => (outDegree, howTo)
  | _ + 1, [], outDegree, howTo => (outDegree, howTo)
  | fuel + 1, node :: q, outDegree, howTo =>
    match moves node with
    | none => drainQueue moves fuel q outDegree howTo
    | some nextNode =>
      let outDegree := update outDegree nextNode (outDegree nextNode - 1)
      drainQueue moves fuel (if outDegree nextNode = 0 then q ++ [nextNode] else q) outDegree
        (howTo ++ [⟨.Move, nextNode, node⟩])

/-! ## 4. 閉路 -/

/-- `cycleHasSIMDReg`：`first` から閉路を一周して、SIMD のレジスタがあるか。元がないのは
閉路の上では起きない。 -/
def cycleHasSIMDReg (isSIMD : R → Bool) (moves : MovePlan R) (first : R) : Nat → R → Bool
  | 0, _ => false
  | fuel + 1, node =>
    if isSIMD node then true
    else match moves node with
      | some next => if next = first then false else cycleHasSIMDReg isSIMD moves first fuel next
      | none => false

/-- 一般の閉路の loop：`while (x != v) { howTo.push_back({Move, x, w}); w = x; x = moves[w]; }`。
止まったときの `w` と `howTo` を返す。`x` が `InvalidReg` になるのは閉路の上では起きない。 -/
def rotateLoop (moves : MovePlan R) (v : R) : Nat → R → Option R → List (MoveInfo R) →
    R × List (MoveInfo R)
  | 0, w, _, howTo => (w, howTo)
  | fuel + 1, w, x, howTo =>
    match x with
    | some x =>
      if x = v then (w, howTo) else rotateLoop moves v fuel x (moves x) (howTo ++ [⟨.Move, x, w⟩])
    | none => (w, howTo)

/-- 四つ目の loop の本体：閉路一つ分の移動を `howTo` に足す。xchg は SIMD のレジスタには使えない。
長さ 2 と 3 の枝で `moves[v]` などが `InvalidReg` なのは閉路の上では起きない。 -/
def emitCycle (regs : Regs R) (moves : MovePlan R) (rTmp : R) (fuel : Nat)
    (howTo : List (MoveInfo R)) (cycle : CycleInfo R) : List (MoveInfo R) :=
  let hasSIMDReg := cycleHasSIMDReg regs.isSIMD moves cycle.node fuel cycle.node
  let v := cycle.node
  if cycle.length = 2 ∧ hasSIMDReg = false then
    match moves v with
    | some w => howTo ++ [⟨.Xchg, w, v⟩]
    | none => howTo
  else if cycle.length = 3 ∧ hasSIMDReg = false then
    match moves v with
    | some w =>
      match moves w with
      | some x => howTo ++ [⟨.Xchg, w, v⟩, ⟨.Xchg, x, w⟩]
      | none => howTo ++ [⟨.Xchg, w, v⟩]
    | none => howTo
  else
    let r := rotateLoop moves v fuel v (moves v) (howTo ++ [⟨.Move, v, rTmp⟩])
    r.2 ++ [⟨.Move, rTmp, r.1⟩]

/-! ## `doRegMoves` -/

/-- `doRegMoves(moves, rTmp)`。`moves[rTmp] == InvalidReg` が前提（`assertx`）。ソースは引数の
`moves` から自分自身への移動を消す。ここではその `moves` を中で使い、返すのは `howTo`。 -/
def doRegMoves (regs : Regs R) (moves : MovePlan R) (rTmp : R) : List (MoveInfo R) :=
  let N := regs.keys.length
  let mi := dropSelfMoves regs.keys moves
  let w := findCycles regs.keys mi.1 N ⟨mi.2, fun _ => 0, 0, []⟩
  let howTo := (drainQueue mi.1 N (regs.keys.filter fun node => w.outDegree node = 0)
    w.outDegree []).2
  w.cycles.foldl (emitCycle regs mi.1 rTmp N) howTo

/-! ## 意味 -/

variable {V : Type}

/-- `Move` は `dst` に `src` の値を写し、`Xchg` は二つの値を入れ替える（`reg-algorithms.h`）。 -/
def MoveInfo.exec (m : MoveInfo R) (ρ : R → V) : R → V :=
  match m.m_kind with
  | .Move => move m.m_src m.m_dst ρ
  | .Xchg => swap m.m_src m.m_dst ρ

/-- `howTo` を順に行う。 -/
def execMoves (ms : List (MoveInfo R)) (ρ : R → V) : R → V :=
  ms.foldl (fun ρ m => m.exec ρ) ρ

/-! ## `insertCopiesAt` -/

/-- `struct Interval` のうち `insertCopiesAt` が読むもの：割り当てたレジスタ `reg`。 -/
structure Interval (R : Type) where
  reg : Option R

/-- `Interval::live()`：`reg != InvalidReg`。 -/
def Interval.live (ivl : Interval R) : Bool := ivl.reg.isSome

/-- `CopyPlan = PhysReg::Map<Interval*>`：行き先ごとの interval。`nullptr` が `none`。 -/
abbrev CopyPlan (R : Type) := R → Option (Interval R)

/-- vasm の `copy{s, d}` と `copy2{s0, s1, d0, d1}`。 -/
inductive Copy (R : Type)
  | copy (s d : R)
  | copy2 (s0 s1 d0 d1 : R)
deriving DecidableEq, Repr

/-- vasm の copy は並列に行う（`vasm-instr.h`）。`copy2` は `s0` と `s1` を読んでから書く。 -/
def Copy.exec : Copy R → (R → V) → R → V
  | .copy s d, ρ => update ρ d (ρ s)
  | .copy2 s0 s1 d0 d1, ρ => update (update ρ d0 (ρ s0)) d1 (ρ s1)

/-- copy の列を順に行う。 -/
def execCopies (cs : List (Copy R)) (ρ : R → V) : R → V :=
  cs.foldl (fun ρ c => c.exec ρ) ρ

/-- `for_each_copy(plan, [&] (PhysReg dst, const Interval* ivl) { moves[dst] = ivl->reg; })`：
`PhysReg::Map` の順に、live な interval のある行き先に、そのレジスタを元として置く。 -/
def copyMoves (keys : List R) (plan : CopyPlan R) : MovePlan R :=
  keys.foldl (fun moves dst =>
    match plan dst with
    | some ivl => if ivl.live then update moves dst ivl.reg else moves
    | none => moves) (fun _ => none)

/-- `insertCopiesAt` が差し込む copy の列。`Xchg` は `copy2{src, dst, dst, src}` になる。 -/
def insertCopiesAt (regs : Regs R) (tmp : R) (plan : CopyPlan R) : List (Copy R) :=
  (doRegMoves regs (copyMoves regs.keys plan) tmp).map fun how =>
    match how.m_kind with
    | .Xchg => .copy2 how.m_src how.m_dst how.m_dst how.m_src
    | .Move => .copy how.m_src how.m_dst

end Hhvm.Jit
