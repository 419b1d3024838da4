import Mathlib.Logic.Function.Basic
import Mathlib.Algebra.Group.Nat.Defs

/-!
# `HashTable<ArrayType, Elm>`

`hphp/runtime/base/hash-table.h` と `hash-table-inl.h` のモデル。
`VanillaDict` と `VanillaKeyset` はどちらもこの template の上に立つ。

配列は二つの部分からなる。

* 要素の列 `data()[0, m_used)`。要素を消すと tombstone になり、位置は詰めない。
  モデルでは `List (Option Elm)` とし、`none` が tombstone である。`m_used` は列の長さ。
* hash 表 `hashTab()`（大きさ `4 * m_scale` の `int32_t` の列）。各マスは
  `Empty`、`Tombstone`、要素の位置のどれかである。モデルでは `Nat → Slot` とする。

探索のループ（`findImpl`、`findForNewInsert`）は C++ では回数の上限を持たない。
モデルでは hash 表のマスの数 `numSlots` を fuel とし、それを使い切ったら `none` を返す。
三角数の探索列は最初の `4 * m_scale` 回で表を一巡するので（`Infra.Probe`）、
fuel を使い切るのは C++ のループが止まらない場合に限られる。

`HashSize` は `uint32_t` で計算されるので、`MaxScale`（`2 ^ 32` マス）では 0 になる。
`checkInvariants` の `HashSize(m_scale) == folly::nextPowTwo(capacity())` はそこで成り立たない。
-/

namespace Hhvm

/-! ## hash 表のマス -/

/-- hash 表の一マス。`Empty = -1`、`Tombstone = -2`、それ以外は要素の位置。 -/
inductive Slot where
  | empty
  | tombstone
  | pos (i : Nat)
  deriving DecidableEq, Repr

/-- `validPos`：要素の位置を指しているか。 -/
def Slot.validPos : Slot → Bool
  | .pos _ => true
  | _ => false

@[simp] theorem Slot.validPos_pos (i : Nat) : (Slot.pos i).validPos = true := rfl
@[simp] theorem Slot.validPos_empty : Slot.empty.validPos = false := rfl
@[simp] theorem Slot.validPos_tombstone : Slot.tombstone.validPos = false := rfl

/-! ## 大きさの定数（`HashTableCommon`） -/

namespace HashTableCommon

def LoadScale : Nat := 4
def SmallScale : Nat := 1
def MaxHashSize : Nat := 2 ^ 32
def MaxMask : Nat := MaxHashSize - 1
def MaxSize : Nat := MaxMask - MaxMask / LoadScale
def MaxScale : Nat := MaxHashSize / LoadScale

/-- `HashSize(scale)`：`uint32_t` の `4 * scale`。`MaxScale` では `2 ^ 32` が 0 に巡る。 -/
def HashSize (scale : Nat) : Nat := 4 * scale % 2 ^ 32

/-- `Capacity(scale)`。`scale ≤ MaxScale` では `uint32_t` に収まる。 -/
def Capacity (scale : Nat) : Nat := 3 * scale

/-- `Mask(scale)`。`1 ≤ scale ≤ MaxScale` では `uint32_t` の `4 * scale - 1` と同じ値
（`MaxScale` では 0 から 1 を引いて `2 ^ 32 - 1`）。 -/
def Mask (scale : Nat) : Nat := 4 * scale - 1

/-- hash 表のマスの数：探索の添字 `h & Mask(scale)` がとる `Mask(scale) + 1 = 4 * scale` 個。
`MaxScale` より小さい表では `HashSize` と同じだが、`MaxScale` でも 0 に巡らない。 -/
def numSlots (scale : Nat) : Nat := 4 * scale

/-- `computeScaleFromSize` の `while (Capacity(scale) < n) scale *= 2;`。
`n < MaxSize` なら 30 回で止まるので、fuel は 31 で足りる（`computeScaleFromSize_capacity`）。 -/
def scaleLoop (n : Nat) : Nat → Nat → Nat
  | 0, scale => scale
  | fuel + 1, scale => if Capacity scale < n then scaleLoop n fuel (scale * 2) else scale

def computeScaleFromSize (n : Nat) : Nat :=
  if n ≥ MaxSize then MaxScale else scaleLoop n 31 SmallScale

end HashTableCommon

open HashTableCommon

/-! ## 表 -/

/-- `HashTable` の状態。`m_used` は `elms` の長さである。 -/
structure HashTable (Elm : Type) where
  /-- `m_scale`。hash 表の大きさの 1/4、要素の容量の 1/3。 -/
  scale : Nat
  /-- `m_size`。tombstone でない要素の数。 -/
  size : Nat
  /-- `data()[0, m_used)`。`none` が tombstone。 -/
  elms : List (Option Elm)
  /-- `hashTab()`。添字は `[0, 4 * m_scale)`。 -/
  hashTab : Nat → Slot

namespace HashTable

variable {Elm : Type}

/-- `m_used`。 -/
def used (t : HashTable Elm) : Nat := t.elms.length

def mask (t : HashTable Elm) : Nat := Mask t.scale

def capacity (t : HashTable Elm) : Nat := Capacity t.scale

/-- `isFull`。 -/
def isFull (t : HashTable Elm) : Bool := t.used == t.capacity

/-- `VanillaDict::checkInvariants` と `VanillaKeyset::checkInvariants` に共通の `assertx`：`m_scale` は
1 以上の 2 の冪、`HashSize(m_scale) == folly::nextPowTwo<uint64_t>(capacity())`、zombie でなければ
`m_size <= m_used <= capacity()`。`folly::nextPowTwo(v)` は `v` 以上の最小の 2 の冪で、core の
`Nat.nextPowerOfTwo` である。`checkCount`・`m_layout_index`・`isStatic` は header の検査で、ここでは
持たない。 -/
def checkInvariants (t : HashTable Elm) : Bool :=
  decide (1 ≤ t.scale) && (t.scale &&& (t.scale - 1) == 0) &&
    HashSize t.scale == (Capacity t.scale).nextPowerOfTwo &&
    decide (t.size ≤ t.used) && decide (t.used ≤ Capacity t.scale)

/-- `InitHash`：すべてのマスを `Empty` にした表。 -/
def initHash : Nat → Slot := fun _ => .empty

/-- 探索の結果。`hit` は見つけたマスと要素の位置、`miss` は行き着いた `Empty` のマス。
`findImpl` が `FindType` ごとに返すもの（位置、真偽、`Inserter`、`RemovePos`）はすべてここから読む。 -/
inductive Found where
  | hit (probe pos : Nat)
  | miss (probe : Nat)
  deriving DecidableEq, Repr

/-- 位置 `pos` の要素が `hit` を満たすか。tombstone と `m_used` より先は満たさない。 -/
def hitAt (t : HashTable Elm) (hit : Elm → Bool) (pos : Nat) : Bool :=
  match t.elms[pos]? with
  | some (some e) => hit e
  | _ => false

/-- `findImpl` のループ。`probe` が今のマス、`i` が次の歩幅。 -/
def findLoop (t : HashTable Elm) (hit : Elm → Bool) : Nat → Nat → Nat → Option Found
  | 0, _, _ => none
  | fuel + 1, probe, i =>
    match t.hashTab probe with
    | .pos p =>
      if t.hitAt hit p then some (.hit probe p)
      else t.findLoop hit fuel ((probe + i) &&& t.mask) (i + 1)
    | .empty => some (.miss probe)
    | .tombstone => t.findLoop hit fuel ((probe + i) &&& t.mask) (i + 1)

/-- `findImpl(h0, hit)`。`(uint32_t)h0 & mask` から探し始める。 -/
def findImpl (t : HashTable Elm) (h0 : UInt32) (hit : Elm → Bool) : Option Found :=
  t.findLoop hit (numSlots t.scale) (h0.toNat &&& t.mask) 1

/-- `findForNewInsert` のループ。`Empty` か `Tombstone` のマスで止まり、そのマスと歩幅を返す。 -/
def newInsertLoop (table : Nat → Slot) (mask : Nat) : Nat → Nat → Nat → Option (Nat × Nat)
  | 0, _, _ => none
  | fuel + 1, probe, i =>
    if (table probe).validPos then newInsertLoop table mask fuel ((probe + i) &&& mask) (i + 1)
    else some (probe, i)

/-- `findForNewInsert(table, mask, h0)`。key が表に無いことを呼ぶ側が保証する。 -/
def findForNewInsert (table : Nat → Slot) (mask : Nat) (h0 : UInt32) : Option Nat :=
  (newInsertLoop table mask (mask + 1) (h0.toNat &&& mask) 1).map Prod.fst

/-- 失敗の種類。 -/
inductive Fault where
  /-- 探索のループが止まらない。 -/
  | diverge
  /-- `raise_error("Array is too unbalanced (%lu)", n)`。 -/
  | unbalanced (n : Nat)
  /-- `assertx` が成り立たない（release build では未定義の動作）。 -/
  | assertFailed
  deriving DecidableEq, Repr

/-- `findForNewInsertWarn`。歩幅が `RuntimeOption::MaxArrayChain` を超えたら
`warnUnbalanced` が `raise_error` する。 -/
def findForNewInsertWarn (maxArrayChain : Nat) (table : Nat → Slot) (mask : Nat) (h0 : UInt32) :
    Except Fault Nat :=
  match newInsertLoop table mask (mask + 1) (h0.toNat &&& mask) 1 with
  | none => .error .diverge
  | some (probe, i) => if i ≤ maxArrayChain then .ok probe else .error (.unbalanced i)

/-- `allocElm(ei)` とその要素の初期化。マス `probe` に位置 `m_used` を書き、要素を末尾に足す。 -/
def allocElm (t : HashTable Elm) (probe : Nat) (e : Elm) : HashTable Elm :=
  { t with
    size := t.size + 1
    elms := t.elms ++ [some e]
    hashTab := Function.update t.hashTab probe (.pos t.used) }

/-- `eraseNoCompact(RemovePos{probe, elmIdx})`。マスを `Tombstone` に、要素を tombstone にする。 -/
def eraseNoCompact (t : HashTable Elm) (probe elmIdx : Nat) : HashTable Elm :=
  { t with
    size := t.size - 1
    elms := t.elms.set elmIdx none
    hashTab := Function.update t.hashTab probe .tombstone }

/-- 位置 `pos` の要素を書き換える（値だけを変える操作。key と hash は呼ぶ側が保つ）。 -/
def setElm (t : HashTable Elm) (pos : Nat) (e : Elm) : HashTable Elm :=
  { t with elms := t.elms.set pos (some e) }

/-! ## 再 hash

`Grow`、`compact`、`CopyReserve` は新しい表を `InitHash` で空にし、
生きている要素をその位置のまま `findForNewInsert` で入れ直す。
-/

/-- 要素の列を先頭から入れ直す。`i` は今の要素の位置。`limit` が `some c` なら
`findForNewInsertWarn`（上限 `c`）を、`none` なら `findForNewInsert` を使う。 -/
def reinsert (pr : Elm → UInt32) (mask : Nat) (limit : Option Nat) :
    Nat → List (Option Elm) → (Nat → Slot) → Except Fault (Nat → Slot)
  | _, [], table => .ok table
  | i, none :: rest, table => reinsert pr mask limit (i + 1) rest table
  | i, some e :: rest, table => do
    let probe ← match limit with
      | none =>
        match findForNewInsert table mask (pr e) with
        | some p => .ok p
        | none => .error .diverge
      | some c => findForNewInsertWarn c table mask (pr e)
    reinsert pr mask limit (i + 1) rest (Function.update table probe (.pos i))

/-! ## 走査 -/

/-- `nextElm` の本体：位置 `ei` 以降で最初の生きている要素の位置。無ければ `m_used`。 -/
def nextElm (elms : List (Option Elm)) (ei : Nat) : Nat :=
  if h : ei < elms.length then
    if elms[ei].isSome then ei else nextElm elms (ei + 1)
  else elms.length
termination_by elms.length - ei

/-- `prevElm(elms, ei)`：位置 `ei` より前で最後の生きている要素の位置。無ければ `m_used`。 -/
def prevElm (elms : List (Option Elm)) : Nat → Nat
  | 0 => elms.length
  | ei + 1 => if (elms[ei]?.bind id).isSome then ei else prevElm elms ei

/-- `IterBegin` = `nextElm(data(), -1)`。 -/
def IterBegin (t : HashTable Elm) : Nat := nextElm t.elms 0

/-- `IterLast`。後ろから最初の生きている要素。無ければ `m_used`。 -/
def IterLast (t : HashTable Elm) : Nat := prevElm t.elms t.used

/-- `IterEnd` = `m_used`。 -/
def IterEnd (t : HashTable Elm) : Nat := t.used

/-- `IterAdvance(pos)`。次の位置が tombstone なら `iter_advance_helper` が先へ進む。 -/
def IterAdvance (t : HashTable Elm) (pos : Nat) : Nat :=
  if pos + 1 ≥ t.used then t.used
  else if (t.elms[pos + 1]?.bind id).isSome then pos + 1
  else nextElm t.elms (pos + 1)

/-- `IterRewind(pos)`。終端はそのまま、それ以外は一つ前の生きている要素へ。 -/
def IterRewind (t : HashTable Elm) (pos : Nat) : Nat :=
  if pos = t.IterEnd then pos else prevElm t.elms pos

/-- `GetPosKey` / `GetPosVal` が読む要素。 -/
def elmAt (t : HashTable Elm) (pos : Nat) : Option Elm := t.elms[pos]?.bind id

/-! ## 更新の補題 -/

@[simp] theorem allocElm_elms (t : HashTable Elm) (p : Nat) (e : Elm) :
    (t.allocElm p e).elms = t.elms ++ [some e] := rfl
@[simp] theorem allocElm_scale (t : HashTable Elm) (p : Nat) (e : Elm) :
    (t.allocElm p e).scale = t.scale := rfl
@[simp] theorem allocElm_size (t : HashTable Elm) (p : Nat) (e : Elm) :
    (t.allocElm p e).size = t.size + 1 := rfl
@[simp] theorem allocElm_hashTab (t : HashTable Elm) (p : Nat) (e : Elm) :
    (t.allocElm p e).hashTab = Function.update t.hashTab p (.pos t.used) := rfl

@[simp] theorem eraseNoCompact_elms (t : HashTable Elm) (p i : Nat) :
    (t.eraseNoCompact p i).elms = t.elms.set i none := rfl
@[simp] theorem eraseNoCompact_scale (t : HashTable Elm) (p i : Nat) :
    (t.eraseNoCompact p i).scale = t.scale := rfl
@[simp] theorem eraseNoCompact_size (t : HashTable Elm) (p i : Nat) :
    (t.eraseNoCompact p i).size = t.size - 1 := rfl
@[simp] theorem eraseNoCompact_hashTab (t : HashTable Elm) (p i : Nat) :
    (t.eraseNoCompact p i).hashTab = Function.update t.hashTab p .tombstone := rfl

@[simp] theorem setElm_elms (t : HashTable Elm) (p : Nat) (e : Elm) :
    (t.setElm p e).elms = t.elms.set p (some e) := rfl
@[simp] theorem setElm_scale (t : HashTable Elm) (p : Nat) (e : Elm) :
    (t.setElm p e).scale = t.scale := rfl
@[simp] theorem setElm_size (t : HashTable Elm) (p : Nat) (e : Elm) :
    (t.setElm p e).size = t.size := rfl
@[simp] theorem setElm_hashTab (t : HashTable Elm) (p : Nat) (e : Elm) :
    (t.setElm p e).hashTab = t.hashTab := rfl

/-! ## 満杯 -/

theorem used_eq_of_isFull {t : HashTable Elm} (h : t.isFull = true) : t.used = Capacity t.scale := by
  simpa [isFull, capacity] using h

theorem used_ne_of_not_isFull {t : HashTable Elm} (h : ¬t.isFull = true) :
    t.used ≠ Capacity t.scale := by
  simpa [isFull, capacity] using h

end HashTable

end Hhvm
