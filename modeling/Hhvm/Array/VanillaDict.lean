import Hhvm.Array.HashTable

/-!
# `VanillaDict`

`hphp/runtime/base/vanilla-dict.cpp` のモデル。`HashTable<VanillaDict, VanillaDictElm>` に
`m_nextKI`（append が使う次の int key）を足したものである。

## モデルにしないもの

* 参照数と copy-on-write。`cowCheck()` が真のときの `copyMixed()` は、tombstone と hash 表を含めて
  配列をそのまま写すので、値としては元と同じである。
* `keyTypes()`（`VanillaDictKeys`）。key の種類の要約で、速い経路を選ぶためだけに使われる。
* 値の `TypedValue` の型。値は型引数 `α` とし、`Uninit` は `Option α` の `none` で表す
  （配列の値が `Uninit` になることはない。`SetIntMove` などが assert している）。

## key の hash

`hash_int64` は platform ごとに違い（CRC32 命令か `hash_int64_fallback`）、文字列の hash は
`StringData::hash()` が決める。どちらも `Hasher` として引数にする。要素には `probe()` として
hash が書かれ、int key では `STRHASH_MSB` が立つ（`setIntKey`）。文字列の hash は 31 bit なので、
この bit で key の種類が分かる。
-/

namespace Hhvm

open HashTableCommon

/-- 配列の key。`int64_t` か文字列。文字列どうしの比較（`same`）は `S` の等号である。 -/
inductive Key (S : Type) where
  | int (k : Int64)
  | str (s : S)
  deriving DecidableEq, Repr

/-- key の hash 関数。 -/
structure Hasher (S : Type) where
  /-- `hash_int64(k)` を `hash_t`（32 bit）に切り詰めたもの。 -/
  int : Int64 → UInt32
  /-- `StringData::hash()`。 -/
  str : S → UInt32

/-- `STRHASH_MSB`。 -/
def STRHASH_MSB : UInt32 := 0x80000000

namespace Key

variable {S : Type}

/-- 探索に渡す hash（`hash_int64(k)` か `k->hash()`）。 -/
def hash (H : Hasher S) : Key S → UInt32
  | .int k => H.int k
  | .str s => H.str s

/-- 要素に書かれる hash。`setIntKey` は `h | STRHASH_MSB` を、`setStrKey` は `h` を書く。 -/
def probe (H : Hasher S) : Key S → UInt32
  | .int k => H.int k ||| STRHASH_MSB
  | .str s => H.str s

/-- `Elm::hasIntKey()`。 -/
def hasIntKey : Key S → Bool
  | .int _ => true
  | .str _ => false

end Key

/-- 実行時の設定。 -/
structure Options where
  /-- `RuntimeOption::MaxArrayChain`。 -/
  maxArrayChain : Nat
  /-- `RuntimeOption::EvalDictDArrayAppendNotices`。 -/
  dictDArrayAppendNotices : Bool

/-- `raise_notice` と `raise_warning` で出る文。 -/
inductive Raised where
  | notice (msg : String)
  | warning (msg : String)
  deriving DecidableEq, Repr

/-- `VanillaDict` の状態。要素は key と値の組。 -/
structure VanillaDict (S α : Type) extends HashTable (Key S × α) where
  /-- `m_nextKI`。 -/
  nextKI : Int64

namespace VanillaDict

open HashTable

variable {S α : Type} [DecidableEq S] (H : Hasher S)

/-- `VanillaDictElm::probe()`。 -/
def elmProbe (e : Key S × α) : UInt32 := e.1.probe H

/-! ## 探索 -/

/-- `hitIntKey(e, ki)`。 -/
def hitIntKey (ki : Int64) (e : Key S × α) : Bool :=
  match e.1 with
  | .int k => k == ki
  | .str _ => false

/-- `hitStrKey(e, ks, h)`：hash が等しく、文字列が `same`。int key の要素の hash には
`STRHASH_MSB` が立っていて 31 bit の文字列の hash と等しくならないので、当たらない。 -/
def hitStrKey (ks : S) (h : UInt32) (e : Key S × α) : Bool :=
  match e.1 with
  | .int _ => false
  | .str s => H.str s == h && s == ks

/-- key に応じた `hit`。 -/
def hitKey : Key S → (Key S × α) → Bool
  | .int ki => hitIntKey ki
  | .str ks => hitStrKey H ks (H.str ks)

/-- `find(k, h0)`、`findForExists`、`findForInsertUpdate`、`findForRemove` の探索。 -/
def findKey (d : VanillaDict S α) (k : Key S) : Option Found :=
  d.findImpl (k.hash H) (hitKey H k)

/-- `NvGetInt` / `NvGetStr`：値、無ければ `Uninit`（`none`）。 -/
def NvGet (d : VanillaDict S α) (k : Key S) : Except Fault (Option α) :=
  match d.findKey H k with
  | none => .error .diverge
  | some (.hit _ pos) => .ok ((d.elmAt pos).map Prod.snd)
  | some (.miss _) => .ok none

def NvGetInt (d : VanillaDict S α) (k : Int64) : Except Fault (Option α) := d.NvGet H (.int k)

def NvGetStr (d : VanillaDict S α) (k : S) : Except Fault (Option α) := d.NvGet H (.str k)

/-- `ExistsInt`：`findForExists(k, hash_int64(k))`。 -/
def ExistsInt (d : VanillaDict S α) (k : Int64) : Except Fault Bool :=
  match d.findKey H (.int k) with
  | none => .error .diverge
  | some (.hit _ _) => .ok true
  | some (.miss _) => .ok false

/-- `ExistsStr`：`NvGetStr(ad, k).is_init()`。 -/
def ExistsStr (d : VanillaDict S α) (k : S) : Except Fault Bool :=
  (d.NvGetStr H k).map Option.isSome

/-- `LvalSilentInt` / `LvalSilentStr`：key の要素の位置。無ければ `none`（`arr_lval{a, nullptr}`）。 -/
def LvalSilent (d : VanillaDict S α) (k : Key S) : Except Fault (Option Nat) :=
  match d.findKey H k with
  | none => .error .diverge
  | some (.hit _ pos) => .ok (some pos)
  | some (.miss _) => .ok none

/-- `GetPosKey`。 -/
def GetPosKey (d : VanillaDict S α) (pos : Nat) : Option (Key S) := (d.elmAt pos).map Prod.fst

/-- `GetPosVal`。 -/
def GetPosVal (d : VanillaDict S α) (pos : Nat) : Option α := (d.elmAt pos).map Prod.snd

/-! ## 作る -/

/-- `VanillaDict::checkInvariants`。 -/
def checkInvariants (d : VanillaDict S α) : Bool := d.toHashTable.checkInvariants

/-- `MakeReserveDict(size)`：`assertx(ad->checkInvariants())` で終わる。 -/
def MakeReserveDict (size : Nat) : VanillaDict S α :=
  { scale := computeScaleFromSize size, size := 0, elms := [], hashTab := initHash, nextKI := 0 }

/-- `MakeDictNatural` のループ。`findForInsertUpdate(i, h)` のマスに位置 `i` を書く。 -/
def naturalLoop (d : VanillaDict S α) : Nat → List α → Except Fault (VanillaDict S α)
  | _, [] => .ok d
  | i, v :: vals =>
    match d.findKey H (.int (Int64.ofNat i)) with
    | none => .error .diverge
    | some (.hit probe _) | some (.miss probe) =>
      naturalLoop { d with toHashTable := d.allocElm probe (.int (Int64.ofNat i), v) } (i + 1) vals

/-- `MakeDictNatural(size, vals)`：key `0, 1, …` に値を並べる。`m_nextKI = size`。 -/
def MakeDictNatural (vals : List α) : Except Fault (VanillaDict S α) :=
  naturalLoop H
    { scale := computeScaleFromSize vals.length, size := 0, elms := [], hashTab := initHash,
      nextKI := Int64.ofNat vals.length } 0 vals

/-- `MakeDict` のループ。key が重なれば配列を捨てて `nullptr`（`none`）を返す。 -/
def makeDictLoop (d : VanillaDict S α) :
    List (Key S × α) → Except Fault (Option (VanillaDict S α))
  | [] => .ok (some d)
  | (k, v) :: kvs =>
    match d.findKey H k with
    | none => .error .diverge
    | some (.hit _ _) => .ok none
    | some (.miss probe) => makeDictLoop { d with toHashTable := d.allocElm probe (k, v) } kvs

/-- `MakeDict(size, kvs)`。`json_decode` が使う。`m_nextKI` は 0 のままである。 -/
def MakeDict (kvs : List (Key S × α)) : Except Fault (Option (VanillaDict S α)) :=
  makeDictLoop H
    { scale := computeScaleFromSize kvs.length, size := 0, elms := [], hashTab := initHash,
      nextKI := 0 } kvs

/-- `MakeStructDict` のループ。key は重ならないので `findForNewInsert` を使う。 -/
def structLoop (d : VanillaDict S α) : List (S × α) → Except Fault (VanillaDict S α)
  | [] => .ok d
  | (k, v) :: rest =>
    match findForNewInsert d.hashTab d.mask (H.str k) with
    | none => .error .diverge
    | some probe => structLoop { d with toHashTable := d.allocElm probe (.str k, v) } rest

/-- `MakeStructDict(size, keys, values)`。値は stack から来るので逆順に並んでいる。 -/
def MakeStructDict (keys : List S) (values : List α) : Except Fault (VanillaDict S α) :=
  structLoop H
    { scale := computeScaleFromSize keys.length, size := 0, elms := [], hashTab := initHash,
      nextKI := 0 } (keys.zip values.reverse)

/-! ## 再 hash と詰め直し -/

/-- `Grow(old, newScale, copy)`。要素は tombstone ごと同じ位置に写し、表を作り直す。
`m_used >= 2000` なら `InsertCheckUnbalanced` が探索の長さを調べる。 -/
def Grow (o : Options) (d : VanillaDict S α) (newScale : Nat) : Except Fault (VanillaDict S α) := do
  let limit := if d.used ≥ 2000 then some o.maxArrayChain else none
  let table ← reinsert (elmProbe H) (Mask newScale) limit 0 d.elms initHash
  .ok { d with scale := newScale, hashTab := table }

/-- `prepareForInsert(copy)`：満杯なら二倍に `Grow` する。 -/
def prepareForInsert (o : Options) (d : VanillaDict S α) : Except Fault (VanillaDict S α) :=
  if d.isFull then d.Grow H o (d.scale * 2) else .ok d

/-- `compact` の詰め直し：tombstone を飛ばして、先頭から `m_size` 個の要素を取る。 -/
def compactLoop : Nat → List (Option (Key S × α)) → List (Key S × α)
  | 0, _ => []
  | _ + 1, [] => []
  | n + 1, none :: rest => compactLoop (n + 1) rest
  | n + 1, some e :: rest => e :: compactLoop n rest

/-- `compact(true)` の振り直し：int key を `m_nextKI` から順に付け替え、最後の `m_nextKI` を返す。 -/
def renumberLoop : Int64 → List (Key S × α) → List (Key S × α) × Int64
  | n, [] => ([], n)
  | n, (.int _, v) :: rest =>
    let r := renumberLoop (n + 1) rest
    ((.int n, v) :: r.1, r.2)
  | n, (.str s, v) :: rest =>
    let r := renumberLoop n rest
    ((.str s, v) :: r.1, r.2)

/-- `compact(renumber)`。tombstone を除いて前に詰め、表を作り直す。`m_used = m_size`。 -/
def compact (d : VanillaDict S α) (renumber : Bool) : Except Fault (VanillaDict S α) := do
  let live := compactLoop d.size d.elms
  let r := if renumber then renumberLoop 0 live else (live, d.nextKI)
  let table ← reinsert (elmProbe H) d.mask none 0 (r.1.map some) initHash
  .ok { d with elms := r.1.map some, hashTab := table, nextKI := r.2 }

/-- `erase(pos)`：`eraseNoCompact` の後、`m_size <= m_used / 2` なら `compact()`。 -/
def erase (d : VanillaDict S α) (probe pos : Nat) : Except Fault (VanillaDict S α) :=
  let d' : VanillaDict S α := { d with toHashTable := d.eraseNoCompact probe pos }
  if d'.size ≤ d'.used / 2 then d'.compact H false else .ok d'

/-- `CopyReserve(src, expectedSize)`：tombstone を除いて写し、大きさ `expectedSize` の表を作る。 -/
def CopyReserve (d : VanillaDict S α) (expectedSize : Nat) : Except Fault (VanillaDict S α) := do
  let scale := computeScaleFromSize expectedSize
  let elms := (d.elms.filterMap id).map some
  let table ← reinsert (elmProbe H) (Mask scale) none 0 elms initHash
  .ok { scale, size := d.size, elms, hashTab := table, nextKI := d.nextKI }

/-- `Copy` = `copyMixed()`：配列をそのまま写す。 -/
def Copy (d : VanillaDict S α) : VanillaDict S α := d

/-- `MakeUncounted`：要素と表をそのまま写し、値を参照の数えない形にする（値は扱わない）。 -/
def MakeUncounted (d : VanillaDict S α) : VanillaDict S α := d

/-! ## 足す -/

/-- `AppendTombstoneInPlace(ad)`：末尾に tombstone を一つ足す（`m_used++`）。hash 表には書かない。 -/
def AppendTombstoneInPlace (d : VanillaDict S α) : VanillaDict S α :=
  { d with elms := d.elms ++ [none] }

/-- `insert(k)`。key があれば `found` とその位置を、無ければ末尾に新しい要素を取ってその位置を返す。
新しい要素の値は、呼ぶ側がすぐ書く `v` で初めから埋めておく。int key では `m_nextKI` を進める。 -/
def insert (d : VanillaDict S α) (k : Key S) (v : α) :
    Except Fault (Bool × Nat × VanillaDict S α) :=
  match d.findKey H k with
  | none => .error .diverge
  | some (.hit _ pos) => .ok (true, pos, d)
  | some (.miss probe) =>
    let nextKI := match k with
      | .int ki => if ki ≥ d.nextKI ∧ d.nextKI ≥ 0 then ki + 1 else d.nextKI
      | .str _ => d.nextKI
    .ok (false, d.used, { d with toHashTable := d.allocElm probe (k, v), nextKI })

/-- 位置 `pos` の要素の値を書き換える（`tvMove(data, p.tv)`）。 -/
def setVal (d : VanillaDict S α) (pos : Nat) (v : α) : VanillaDict S α :=
  match d.elmAt pos with
  | some (k, _) => { d with toHashTable := d.setElm pos (k, v) }
  | none => d

/-- `update(k, data)`：あれば値を書き換え、無ければ足す。 -/
def update (d : VanillaDict S α) (k : Key S) (v : α) : Except Fault (VanillaDict S α) := do
  let (found, pos, d') ← d.insert H k v
  .ok (if found then d'.setVal pos v else d')

/-- `updateSkipConflict(k, data)`：あれば何もしない。 -/
def updateSkipConflict (d : VanillaDict S α) (k : Key S) (v : α) :
    Except Fault (VanillaDict S α) := do
  let (_, _, d') ← d.insert H k v
  .ok d'

/-- `SetIntMove` などの共通の形：`prepareForInsert` の後に `update`。 -/
def SetMove (o : Options) (d : VanillaDict S α) (k : Key S) (v : α) :
    Except Fault (VanillaDict S α) := do
  let p ← d.prepareForInsert H o
  p.update H k v

def SetIntMove (o : Options) (d : VanillaDict S α) (k : Int64) (v : α) :
    Except Fault (VanillaDict S α) := d.SetMove H o (.int k) v

def SetStrMove (o : Options) (d : VanillaDict S α) (k : S) (v : α) :
    Except Fault (VanillaDict S α) := d.SetMove H o (.str k) v

/-- `SetIntInPlace`：`prepareForInsert(false)` の後に `update`。 -/
def SetIntInPlace (o : Options) (d : VanillaDict S α) (k : Int64) (v : α) :
    Except Fault (VanillaDict S α) := d.SetMove H o (.int k) v

def SetStrInPlace (o : Options) (d : VanillaDict S α) (k : S) (v : α) :
    Except Fault (VanillaDict S α) := d.SetMove H o (.str k) v

/-- `SetIntMoveSkipConflict` などの共通の形：`prepareForInsert` の後に `updateSkipConflict`。 -/
def SetMoveSkipConflict (o : Options) (d : VanillaDict S α) (k : Key S) (v : α) :
    Except Fault (VanillaDict S α) := do
  let p ← d.prepareForInsert H o
  p.updateSkipConflict H k v

def SetIntMoveSkipConflict (o : Options) (d : VanillaDict S α) (k : Int64) (v : α) :
    Except Fault (VanillaDict S α) := d.SetMoveSkipConflict H o (.int k) v

def SetStrMoveSkipConflict (o : Options) (d : VanillaDict S α) (k : S) (v : α) :
    Except Fault (VanillaDict S α) := d.SetMoveSkipConflict H o (.str k) v

/-- `nextInsert(v)`：key `m_nextKI` の要素を足す。`m_nextKI` が無いことを前提に
`findForNewInsert` を使う。 -/
def nextInsert (d : VanillaDict S α) (v : α) : Except Fault (VanillaDict S α) :=
  let ki := d.nextKI
  match findForNewInsert d.hashTab d.mask (H.int ki) with
  | none => .error .diverge
  | some probe => .ok { d with toHashTable := d.allocElm probe (.int ki, v), nextKI := ki + 1 }

/-- `AppendMove` が `maxIntKey` を求めるループ。初めは `-1`。 -/
def maxIntKey : List (Option (Key S × α)) → Int64 → Int64
  | [], m => m
  | some (.int k, _) :: rest, m => maxIntKey rest (max m k)
  | _ :: rest, m => maxIntKey rest m

/-- `raise_notice("Hack Array Compat: append to %s at index %s (maxIntKey + 1)")`。 -/
def appendNotice (greater : Bool) : String :=
  "Hack Array Compat: append to dict at index " ++ (if greater then ">" else "<") ++
    " (maxIntKey + 1)"

/-- `raise_warning` の文。 -/
def cannotAddWarning : String :=
  "Cannot add element to the array as the next element is already occupied"

/-- `AppendMove(ad, v)`。返すのは配列と、出した notice / warning。 -/
def AppendMove (o : Options) (d : VanillaDict S α) (v : α) :
    Except Fault (VanillaDict S α × List Raised) := do
  let nextKI := maxIntKey d.elms (-1) + 1
  let notices :=
    if nextKI ≠ d.nextKI ∧ o.dictDArrayAppendNotices = true then
      [Raised.notice (appendNotice (d.nextKI > nextKI))]
    else []
  if d.nextKI < 0 then
    .ok (d, notices ++ [.warning cannotAddWarning])
  else do
    let p ← d.prepareForInsert H o
    let r ← p.nextInsert H v
    .ok (r, notices)

/-! ## 消す -/

/-- `updateNextKI(removedKi, updateNext)`（PHP5 の振る舞い）。 -/
def updateNextKI (d : VanillaDict S α) (removedKi : Int64) (updateNext : Bool) : VanillaDict S α :=
  if removedKi.toUInt64 = d.nextKI.toUInt64 - 1 ∧ removedKi ≥ 0 ∧
      (removedKi = 0x7fffffffffffffff ∨ updateNext = true) then
    { d with nextKI := removedKi }
  else d

/-- `RemoveIntMove(ad, k)`。 -/
def RemoveIntMove (d : VanillaDict S α) (k : Int64) : Except Fault (VanillaDict S α) :=
  match d.findKey H (.int k) with
  | none => .error .diverge
  | some (.miss _) => .ok d
  | some (.hit probe pos) => (d.updateNextKI k false).erase H probe pos

/-- `RemoveStrMove(ad, k)`。 -/
def RemoveStrMove (d : VanillaDict S α) (k : S) : Except Fault (VanillaDict S α) :=
  match d.findKey H (.str k) with
  | none => .error .diverge
  | some (.miss _) => .ok d
  | some (.hit probe pos) => d.erase H probe pos

/-- `PopMove(ad, value)`：最後の要素を取り除き、その値を返す。空なら `Uninit`。 -/
def PopMove (d : VanillaDict S α) : Except Fault (VanillaDict S α × Option α) :=
  if d.size = 0 then .ok (d, none)
  else
    match d.elmAt d.IterLast with
    | none => .ok (d, none)
    | some (.str s, v) => do
      let d' ← d.RemoveStrMove H s
      .ok (d', some v)
    | some (.int i, v) => do
      let d' ← d.RemoveIntMove H i
      .ok (d', some v)

/-! ## `Merge` -/

/-- `Merge` のループの一歩：int key の要素は `nextInsert<false>`、文字列 key の要素は
`addLvalImpl` と `tvSet`（`update`）。 -/
def mergeElem (r : VanillaDict S α) (kv : Key S × α) : Except Fault (VanillaDict S α) :=
  match kv.1 with
  | .int _ => r.nextInsert H kv.2
  | .str s => r.update H (.str s) kv.2

/-- `Merge(ad, elems)`：`elems` の要素を走査の順に、int key なら append、文字列 key なら set する。
`elems` は走査で出てくる key と値の列で渡す。 -/
def Merge (d : VanillaDict S α) (elems : List (Key S × α)) : Except Fault (VanillaDict S α) := do
  let ret ← d.CopyReserve H (d.size + elems.length)
  elems.foldlM (mergeElem H) ret

/-! ## 比較 -/

/-- `DictEqualHelper` の厳密な比較の key：int key は値が等しく、文字列 key は `same`。 -/
def keySame : Key S → Key S → Bool
  | .int k1, .int k2 => k1 == k2
  | .str s1, .str s2 => s1 == s2
  | _, _ => false

/-- `DictEqualHelper(ad1, ad2, true)` のループ。二つの要素の列を並べて歩き、tombstone はそれぞれの
側で飛ばす（先に `elm1` の側を見る）。片方が尽きたら、もう片方の残りがすべて tombstone かを見る。 -/
def sameLoop (tvSame : α → α → Bool) :
    List (Option (Key S × α)) → List (Option (Key S × α)) → Bool
  | [], l2 => l2.all (·.isNone)
  | e1 :: r1, [] => (e1 :: r1).all (·.isNone)
  | none :: r1, e2 :: r2 => sameLoop tvSame r1 (e2 :: r2)
  | some e1 :: r1, none :: r2 => sameLoop tvSame (some e1 :: r1) r2
  | some e1 :: r1, some e2 :: r2 =>
    keySame e1.1 e2.1 && tvSame e1.2 e2.2 && sameLoop tvSame r1 r2

/-- `DictEqualHelper(ad1, ad2, false)` のループ。`ad1` の生きている要素ごとに `ad2` を
`NvGetInt` / `NvGetStr` で引き、無い（`Uninit`）か `tvEqual` でなければ偽。 -/
def equalLoop (tvEqual : α → α → Bool) (ad2 : VanillaDict S α) :
    List (Option (Key S × α)) → Except Fault Bool
  | [] => .ok true
  | none :: rest => equalLoop tvEqual ad2 rest
  | some (k, v) :: rest => do
    let other ← match k with
      | .int ki => ad2.NvGetInt H ki
      | .str ks => ad2.NvGetStr H ks
    match other with
    | none => .ok false
    | some v' => if tvEqual v v' then equalLoop tvEqual ad2 rest else .ok false

/-- `DictEqualHelper(ad1, ad2, strict)`。`identical` は `ad1 == ad2`（同じ配列を指している）。
値の比較は `tvSame`（`strict`）と `tvEqual` を引数にする。`check_recursion_error()` は入れ子が
深すぎるときに投げるだけなので書かない。 -/
def DictEqualHelper (tvSame tvEqual : α → α → Bool) (ad1 ad2 : VanillaDict S α)
    (identical strict : Bool) : Except Fault Bool :=
  if identical then .ok true
  else if ad1.size ≠ ad2.size then .ok false
  else if strict then .ok (sameLoop tvSame ad1.elms ad2.elms)
  else equalLoop H tvEqual ad2 ad1.elms

/-- `DictEqual(ad1, ad2)` -/
def DictEqual (tvSame tvEqual : α → α → Bool) (ad1 ad2 : VanillaDict S α) (identical : Bool) :
    Except Fault Bool :=
  DictEqualHelper H tvSame tvEqual ad1 ad2 identical false

/-- `DictSame(ad1, ad2)` -/
def DictSame (tvSame tvEqual : α → α → Bool) (ad1 ad2 : VanillaDict S α) (identical : Bool) :
    Except Fault Bool :=
  DictEqualHelper H tvSame tvEqual ad1 ad2 identical true

end VanillaDict

end Hhvm
