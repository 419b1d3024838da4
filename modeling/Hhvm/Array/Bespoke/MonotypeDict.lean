import Hhvm.Array.VanillaDict

/-!
# `MonotypeDict` と `EmptyMonotypeDict`

`hphp/runtime/base/bespoke/monotype-dict.{h,cpp}` のモデル。`MonotypeDict<Key>` は key の型が
一つ（`int64_t` か文字列）で、すべての値が同じ `DataType` を持つ dict の layout である。
要素の列と、要素の位置を指す hash 表（`indices()`）からなり、探索は `VanillaDict` と同じ
三角数の歩幅で進む。key を表せない操作や型の違う値は、`VanillaDict` へ escalate してから行う。
`EmptyMonotypeDict` は空の dict の static な singleton である。

## モデルにしないもの

* `MonotypeDict<StaticStrPtr>`。文字列の static さは扱わず、文字列 key の dict はすべて
  `MonotypeDict<StringData*>` とする（`loosenToStr` と `tightenToStaticStr` の切り替えも扱わない）。
* 値の `DataType` の persistence。値の型は `typeOf : α → T` で与え、`equivDataTypes` は `T` の
  等号とする。layout index の書き換え（`setLayoutIndex`）も扱わない。
* 参照の数、copy-on-write、legacy の印。`resize` の後の古い配列（zombie）は二度と使われない。
* `forEachElm` は `m_size == used()` のとき tombstone の判定を省くが、そのとき tombstone は
  無いので、いつも生きている要素だけを回すとする。

## tombstone

C++ は tombstone を key の特別な値で表す（int では `INT64_MIN`、文字列では `nullptr`）。
モデルでは要素の key を `Option K` とし、`none` を tombstone とする。`coerceKey` が tombstone を
返すこと（`INT64_MIN` を int key とする場合を含む）は `none` を返すことになる。
-/

namespace Hhvm

namespace Bespoke

open HashTableCommon HashTable

/-! ## 大きさ -/

def kMinSizeIndex : Nat := 7
def kSizeClassesPerDoubling : Nat := 4
def kMinNumElms : Nat := 6
def kMinNumIndices : Nat := 8

/-- `scaleBySizeIndex(base, index)`：`index` が二倍の段を上がるごとに `base` を倍にする。 -/
def scaleBySizeIndex (base index : Nat) : Nat :=
  base <<< ((index - kMinSizeIndex) / kSizeClassesPerDoubling)

/-- `ComputeSizeIndex` の while ループ。容量は倍々に増えるので fuel は `size + 1` で足りる。 -/
def computeSizeIndexLoop (size : Nat) : Nat → Nat → Nat → Nat
  | 0, _, result => result
  | fuel + 1, capacity, result =>
    if capacity ≤ size then
      computeSizeIndexLoop size fuel (capacity * 2) (result + kSizeClassesPerDoubling)
    else result

/-- `ComputeSizeIndex(size)`。 -/
def ComputeSizeIndex (size : Nat) : Nat :=
  computeSizeIndexLoop size (size + 1) kMinNumElms kMinSizeIndex

/-! ## key -/

/-- `Key` を引数とする helper（`getHash`、`coerceKey`、`GetPosKey`）。 -/
structure MonoKey (S K : Type) where
  /-- `getHash(key)`。 -/
  getHash : K → UInt32
  /-- `coerceKey<Key>(int64_t)`。`none` は tombstone。 -/
  coerceInt : Int64 → Option K
  /-- `coerceKey<Key>(const StringData*)`。`none` は tombstone。 -/
  coerceStr : S → Option K
  /-- `GetPosKey` が返す配列の key。 -/
  toKey : K → Key S

/-- `MonotypeDict<int64_t>` の key。hash は `hash_int64(key) | STRHASH_MSB`。`INT64_MIN` は
tombstone なので、その key は表せない。 -/
def intKeys {S : Type} (H : Hasher S) : MonoKey S Int64 where
  getHash k := H.int k ||| STRHASH_MSB
  coerceInt k := if k = Int64.minValue then none else some k
  coerceStr _ := none
  toKey := .int

/-- `MonotypeDict<StringData*>` の key。hash は `key->hash()`。 -/
def strKeys {S : Type} (H : Hasher S) : MonoKey S S where
  getHash := H.str
  coerceInt _ := none
  coerceStr := some
  toKey := .str

/-! ## 状態 -/

/-- `MonotypeDict<Key>` の状態。 -/
structure MonotypeDict (K α T : Type) where
  /-- `sizeIndex()`。 -/
  sizeIndex : Nat
  /-- `type()`：すべての値の `DataType`。 -/
  type : T
  /-- `m_size`。 -/
  size : Nat
  /-- `m_extra_lo16`：tombstone の数。`0xffff` は zombie の印を兼ねる。 -/
  tombstones : Nat
  /-- `elms()[0, used())`。key が `none` の要素が tombstone。 -/
  elms : List (Option K × α)
  /-- `indices()`。添字は `[0, numIndices())`。 -/
  indices : Nat → Slot

/-- `find<Result>` の四つの使い方。 -/
inductive FindMode where
  | add
  | get
  | remove
  | update
  deriving DecidableEq, Repr

/-- `find` のループの行き着く先。`hit` は key の等しい要素を指すマス `i` とその位置 `index`。
`miss` は `Empty` のマス `i`、そこでの歩幅 `delta`、`Update` が覚えた最初の `Tombstone` のマス
（`first`、無ければ 0、あれば マス + 1）。 -/
inductive FindResult where
  | hit (i index : Nat)
  | miss (i delta first : Nat)
  deriving DecidableEq, Repr

/-- `Elem` の結果：`throwOOBArrayKeyException(k)`、`immutable_null_base`、要素 `pos` の値への lval。 -/
inductive ElemResult (S : Type) where
  | throwOOB (k : Key S)
  | nullBase
  | lval (pos : Nat)
  deriving DecidableEq, Repr

namespace MonotypeDict

variable {S K α T : Type} [DecidableEq S] [DecidableEq K] [DecidableEq T]

/-- `used()` = `m_size + m_tombstones`。 -/
def used (mad : MonotypeDict K α T) : Nat := mad.size + mad.tombstones

/-- `numElms()`：要素の容量。配列の頭が要素一つ分を使う。 -/
def numElms (mad : MonotypeDict K α T) : Nat := scaleBySizeIndex kMinNumElms mad.sizeIndex - 1

/-- `numIndices()`。 -/
def numIndices (mad : MonotypeDict K α T) : Nat := scaleBySizeIndex kMinNumIndices mad.sizeIndex

def mask (mad : MonotypeDict K α T) : Nat := mad.numIndices - 1

/-- `isZombie()`。 -/
def isZombie (mad : MonotypeDict K α T) : Bool := mad.tombstones == 0xffff

/-- `MakeReserve(legacy, capacity, dt)`。 -/
def MakeReserve (capacity : Nat) (dt : T) : MonotypeDict K α T :=
  ⟨ComputeSizeIndex capacity, dt, 0, 0, [], initHash⟩

/-! ## 探索 -/

/-- `find<Result>` のループ。`Add` はすべてのマスを飛ばして `Empty` まで進み、`Get` と `Remove` は
`Tombstone` を飛ばし、`Update` は最初の `Tombstone` を覚える。fuel は `numIndices()`。 -/
def findLoop (indices : Nat → Slot) (elms : List (Option K × α)) (mask : Nat) (mode : FindMode)
    (key : Option K) : Nat → Nat → Nat → Nat → Option FindResult
  | 0, _, _, _ => none
  | fuel + 1, i, delta, first =>
    match indices i with
    | .empty => some (.miss i delta first)
    | .tombstone =>
      if mode = .add then findLoop indices elms mask mode key fuel ((i + delta) &&& mask) (delta + 1) first
      else
        let first' := if mode = .update ∧ first = 0 then i + 1 else first
        findLoop indices elms mask mode key fuel ((i + delta) &&& mask) (delta + 1) first'
    | .pos index =>
      if mode = .add then findLoop indices elms mask mode key fuel ((i + delta) &&& mask) (delta + 1) first
      else if (elms[index]?.map Prod.fst) = some key then some (.hit i index)
      else findLoop indices elms mask mode key fuel ((i + delta) &&& mask) (delta + 1) first

/-- `find<Result>(key, hash)`：`uint32_t(hash) & mask` から探す。 -/
def find (mad : MonotypeDict K α T) (mode : FindMode) (key : Option K) (hash : UInt32) :
    Option FindResult :=
  findLoop mad.indices mad.elms mad.mask mode key mad.numIndices (hash.toNat &&& mad.mask) 1 0

/-- `findForAdd(hash)`：`Empty` のマスとそこまでの歩幅（`chain_length`）。 -/
def findForAdd (mad : MonotypeDict K α T) (hash : UInt32) : Option (Nat × Nat) :=
  match mad.find .add none hash with
  | some (.miss i delta _) => some (i, delta)
  | _ => none

variable (M : MonoKey S K)

/-- `forEachElm(e)` が回す生きている要素：位置、key、値。 -/
def liveElms (mad : MonotypeDict K α T) : List (Nat × K × α) :=
  mad.elms.zipIdx.filterMap fun (e, i) => e.1.map fun k => (i, k, e.2)

/-- `resize` と `compactIfNeeded` のループ：要素 `(i, key)` ごとに `findForAdd(getHash(key))` の
マスへ `i` を書く。`resize` が調べる歩幅の bitwise-OR（`chain |= add.chain_length`）も返す。 -/
def addLoop : MonotypeDict K α T → Nat → List (Nat × K) → Except Fault (MonotypeDict K α T × Nat)
  | mad, chain, [] => .ok (mad, chain)
  | mad, chain, (i, k) :: rest =>
    match mad.findForAdd (M.getHash k) with
    | none => .error .diverge
    | some (slot, delta) =>
      addLoop { mad with indices := Function.update mad.indices slot (.pos i) } (chain ||| delta) rest

/-! ## 表を作り直す -/

/-- `resize(index, copy)`：要素を tombstone ごと同じ位置に写し、表を作り直す。歩幅が長すぎれば
`raise_error("Array is too unbalanced (%u)", MaxArrayChain + 1)`。 -/
def resize (o : Options) (mad : MonotypeDict K α T) (index : Nat) :
    Except Fault (MonotypeDict K α T) := do
  let ad := { mad with sizeIndex := index, indices := initHash }
  let (ad', chain) ← addLoop M ad 0 (mad.liveElms.map fun (i, k, _) => (i, k))
  if chain > 2048 ∧ chain > Nat.nextPowerOfTwo o.maxArrayChain then
    .error (.unbalanced (o.maxArrayChain + 1))
  else .ok ad'

/-- `prepareForInsert()`：満杯なら一段大きくする。 -/
def prepareForInsert (o : Options) (mad : MonotypeDict K α T) : Except Fault (MonotypeDict K α T) :=
  if mad.used = mad.numElms then mad.resize M o (mad.sizeIndex + kSizeClassesPerDoubling)
  else .ok mad

/-- `compactIfNeeded()`：tombstone が `max(2 * size(), kMinNumElms - 1)` を超えたら小さい配列へ、
zombie の印（tombstone の数の上限）に達したらその場で、生きている要素を前に詰めて表を作り直す。 -/
def compactIfNeeded (mad : MonotypeDict K α T) : Except Fault (MonotypeDict K α T) :=
  let target := max (2 * mad.size) (kMinNumElms - 1)
  let shrink := decide (mad.tombstones > target)
  if !shrink && !mad.isZombie then .ok mad
  else do
    let live := mad.liveElms
    let result : MonotypeDict K α T :=
      { sizeIndex := if shrink then ComputeSizeIndex target else mad.sizeIndex
        type := mad.type
        size := live.length
        tombstones := 0
        elms := live.map fun (_, k, v) => (some k, v)
        indices := initHash }
    let (result', _) ← addLoop M result 0 (live.zipIdx.map fun ((_, k, _), cur) => (cur, k))
    .ok result'

/-- `escalateWithCapacity(capacity)`：`VanillaDict::MakeReserveDict(capacity + tombstones())` に
要素を順に `SetIntMove` / `SetStrMove` し、tombstone は `AppendTombstoneInPlace` で写す
（走査の位置を保つため）。 -/
def escalateWithCapacity (H : Hasher S) (o : Options) (mad : MonotypeDict K α T) (capacity : Nat) :
    Except Fault (VanillaDict S α) :=
  mad.elms.foldlM
    (fun ad e =>
      match e.1 with
      | none => .ok ad.AppendTombstoneInPlace
      | some k => ad.SetMove H o (M.toKey k) e.2)
    (VanillaDict.MakeReserveDict (capacity + mad.tombstones))

/-- `EscalateToVanilla(mad)`。 -/
def EscalateToVanilla (H : Hasher S) (o : Options) (mad : MonotypeDict K α T) :
    Except Fault (VanillaDict S α) :=
  mad.escalateWithCapacity M H o mad.size

/-! ## 読む -/

/-- `getImpl(key)`：値、無ければ `Uninit`（`none`）。 -/
def getImpl (mad : MonotypeDict K α T) (key : Option K) : Except Fault (Option α) :=
  match key with
  | none => .ok none
  | some k =>
    match mad.find .get (some k) (M.getHash k) with
    | none => .error .diverge
    | some (.miss ..) => .ok none
    | some (.hit _ index) => .ok (mad.elms[index]?.map Prod.snd)

def NvGetInt (mad : MonotypeDict K α T) (k : Int64) : Except Fault (Option α) :=
  mad.getImpl M (M.coerceInt k)

def NvGetStr (mad : MonotypeDict K α T) (k : S) : Except Fault (Option α) :=
  mad.getImpl M (M.coerceStr k)

/-- `elemImpl(key, k, throwOnMissing)`。 -/
def elemImpl (mad : MonotypeDict K α T) (key : Option K) (k : Key S) (throwOnMissing : Bool) :
    Except Fault (ElemResult S) :=
  let missing : ElemResult S := if throwOnMissing then .throwOOB k else .nullBase
  match key with
  | none => .ok missing
  | some kk =>
    match mad.find .get (some kk) (M.getHash kk) with
    | none => .error .diverge
    | some (.miss ..) => .ok missing
    | some (.hit _ index) => .ok (.lval index)

def ElemInt (mad : MonotypeDict K α T) (k : Int64) (throwOnMissing : Bool) :
    Except Fault (ElemResult S) :=
  mad.elemImpl M (M.coerceInt k) (.int k) throwOnMissing

def ElemStr (mad : MonotypeDict K α T) (k : S) (throwOnMissing : Bool) :
    Except Fault (ElemResult S) :=
  mad.elemImpl M (M.coerceStr k) (.str k) throwOnMissing

/-! ## 走査 -/

/-- 要素の列を `HashTable` の走査の形（tombstone は `none`）で見たもの。 -/
def slots (mad : MonotypeDict K α T) : List (Option (K × α)) :=
  mad.elms.map fun e => e.1.map (·, e.2)

/-- `IterBegin` = `IterAdvance(-1)`。 -/
def IterBegin (mad : MonotypeDict K α T) : Nat := nextElm mad.slots 0

/-- `IterEnd` = `used()`。 -/
def IterEnd (mad : MonotypeDict K α T) : Nat := mad.used

/-- `IterAdvance(pos)`：`pos` より後で最初の生きている要素。無ければ `used()`。 -/
def IterAdvance (mad : MonotypeDict K α T) (pos : Nat) : Nat := nextElm mad.slots (pos + 1)

/-- `IterRewind(pos)`：`pos` より前で最後の生きている要素。無ければ `used()`。 -/
def IterRewind (mad : MonotypeDict K α T) (pos : Nat) : Nat := prevElm mad.slots pos

/-- `IterLast` = `IterRewind(used())`。 -/
def IterLast (mad : MonotypeDict K α T) : Nat := mad.IterRewind mad.used

def GetPosKey (mad : MonotypeDict K α T) (pos : Nat) : Option (Key S) :=
  (mad.slots[pos]?.bind id).map fun e => M.toKey e.1

def GetPosVal (mad : MonotypeDict K α T) (pos : Nat) : Option α :=
  (mad.slots[pos]?.bind id).map Prod.snd

/-- 走査で見える key と値の列。 -/
def abs (mad : MonotypeDict K α T) : List (Key S × α) :=
  (mad.slots.filterMap id).map fun e => (M.toKey e.1, e.2)

/-! ## 書く -/

variable (typeOf : α → T)

/-- `setImpl` の escalate：`escalateWithCapacity(size() + 1)` の後に vanilla の `setMove`。 -/
def escalateSet (H : Hasher S) (o : Options) (mad : MonotypeDict K α T) (k : Key S) (v : α) :
    Except Fault (MonotypeDict K α T ⊕ VanillaDict S α) := do
  let ad ← mad.escalateWithCapacity M H o (mad.size + 1)
  let r ← ad.SetMove H o k v
  .ok (.inr r)

/-- `setImpl(key, k, v)`。key が表せないか値の型が違えば escalate。そうでなければ
`prepareForInsert` の後、`find<Update>` で見つかれば値を書き換え、無ければ最初の `Tombstone`
（無ければ `Empty`）のマスに位置 `used()` を書いて末尾に足す。 -/
def setImpl (H : Hasher S) (o : Options) (mad : MonotypeDict K α T) (key : Option K) (k : Key S)
    (v : α) : Except Fault (MonotypeDict K α T ⊕ VanillaDict S α) :=
  match key with
  | none => mad.escalateSet M H o k v
  | some kk =>
    if mad.type = typeOf v then do
      let result ← mad.prepareForInsert M o
      match result.find .update (some kk) (M.getHash kk) with
      | none => .error .diverge
      | some (.hit _ index) =>
        .ok (.inl { result with elms := result.elms.modify index fun e => (e.1, v) })
      | some (.miss i _ first) =>
        let slot := if first = 0 then i else first - 1
        .ok (.inl { result with
          indices := Function.update result.indices slot (.pos result.used)
          elms := result.elms ++ [(some kk, v)]
          size := result.size + 1 })
    else mad.escalateSet M H o k v

def SetIntMove (H : Hasher S) (o : Options) (mad : MonotypeDict K α T) (k : Int64) (v : α) :
    Except Fault (MonotypeDict K α T ⊕ VanillaDict S α) :=
  mad.setImpl M typeOf H o (M.coerceInt k) (.int k) v

def SetStrMove (H : Hasher S) (o : Options) (mad : MonotypeDict K α T) (k : S) (v : α) :
    Except Fault (MonotypeDict K α T ⊕ VanillaDict S α) :=
  mad.setImpl M typeOf H o (M.coerceStr k) (.str k) v

/-- `removeImpl(key)`：見つかれば要素の key を tombstone にし、マスを `Tombstone` にして
`compactIfNeeded`。 -/
def removeImpl (mad : MonotypeDict K α T) (key : Option K) : Except Fault (MonotypeDict K α T) :=
  match key with
  | none => .ok mad
  | some kk =>
    match mad.find .remove (some kk) (M.getHash kk) with
    | none => .error .diverge
    | some (.miss ..) => .ok mad
    | some (.hit i index) =>
      compactIfNeeded M { mad with
        elms := mad.elms.modify index fun e => (none, e.2)
        indices := Function.update mad.indices i .tombstone
        tombstones := mad.tombstones + 1
        size := mad.size - 1 }

def RemoveIntMove (mad : MonotypeDict K α T) (k : Int64) : Except Fault (MonotypeDict K α T) :=
  mad.removeImpl M (M.coerceInt k)

def RemoveStrMove (mad : MonotypeDict K α T) (k : S) : Except Fault (MonotypeDict K α T) :=
  mad.removeImpl M (M.coerceStr k)

/-- `appendImpl` のループ：int key `k` が `nextKI` 以上（かつ `nextKI >= 0`）なら `nextKI = k + 1`。
`Key` が文字列なら C++ はこのループを回さないが、そのとき int key は無いので同じである。 -/
def nextKILoop : List (Nat × K × α) → Int64 → Int64
  | [], n => n
  | (_, k, _) :: rest, n =>
    match M.toKey k with
    | .int ki => nextKILoop rest (if ki ≥ n ∧ n ≥ 0 then ki + 1 else n)
    | .str _ => nextKILoop rest n

/-- `AppendMove` = `appendImpl(v)`：次の int key を生きている要素から求め、`SetIntMove` する。
`m_nextKI` は持たない。 -/
def AppendMove (H : Hasher S) (o : Options) (mad : MonotypeDict K α T) (v : α) :
    Except Fault ((MonotypeDict K α T ⊕ VanillaDict S α) × List Raised) :=
  let nextKI := nextKILoop M mad.liveElms 0
  if nextKI < 0 then .ok (.inl mad, [.warning VanillaDict.cannotAddWarning])
  else do
    let r ← mad.SetIntMove M typeOf H o nextKI v
    .ok (r, [])

/-- `PopMove(mad, value)`：最後の要素を、その key で `RemoveIntMove` / `RemoveStrMove` する。 -/
def PopMove (mad : MonotypeDict K α T) : Except Fault (MonotypeDict K α T × Option α) :=
  if mad.size = 0 then .ok (mad, none)
  else
    match mad.slots[mad.IterLast]?.bind id with
    | none => .error .assertFailed
    | some (k, v) => do
      let r ← match M.toKey k with
        | .int i => mad.RemoveIntMove M i
        | .str s => mad.RemoveStrMove M s
      .ok (r, some v)

end MonotypeDict

/-! ## `VanillaDict` から作る -/

namespace MonotypeDict

variable {S K α T : Type} [DecidableEq S] [DecidableEq K] [DecidableEq T]
  (M : MonoKey S K) (typeOf : α → T)

/-- `MakeFromVanilla(ad, dt)`：`MakeReserve(size, dt)` に走査の順で `SetStrMove` / `SetIntMove` する。
escalate しないことを `assertx(result == next)` が確かめる。 -/
def MakeFromVanilla (H : Hasher S) (o : Options) (ad : VanillaDict S α) (dt : T) :
    Except Fault (MonotypeDict K α T) :=
  (ad.elms.filterMap id).foldlM
    (fun (result : MonotypeDict K α T) kv => do
      let next ← match kv.1 with
        | .str s => result.SetStrMove M typeOf H o s kv.2
        | .int i => result.SetIntMove M typeOf H o i kv.2
      match next with
      | .inl r => .ok r
      | .inr _ => .error .assertFailed)
    (MakeReserve ad.size dt)

end MonotypeDict

/-! ## layout ごとの呼び分け

`BespokeArray` の vtable は layout ごとに関数を呼び分ける。ここでは dict が取りうる layout
（`EmptyMonotypeDict`、int key と文字列 key の `MonotypeDict`）と、escalate した後の
`VanillaDict` を一つの型にまとめ、配列の操作をそれぞれの関数へ送る。
-/

/-- dict の layout。 -/
inductive MonoDict (S α T : Type) where
  /-- `EmptyMonotypeDict` の singleton。 -/
  | empty
  | ints (mad : MonotypeDict Int64 α T)
  | strs (mad : MonotypeDict S α T)
  | vanilla (ad : VanillaDict S α)

namespace MonoDict

variable {S α T : Type} [DecidableEq S] [DecidableEq T] (H : Hasher S) (o : Options)
  (typeOf : α → T)

/-- `setImpl` などの結果を layout に戻す。 -/
def ofInts : MonotypeDict Int64 α T ⊕ VanillaDict S α → MonoDict S α T
  | .inl mad => .ints mad
  | .inr ad => .vanilla ad

def ofStrs : MonotypeDict S α T ⊕ VanillaDict S α → MonoDict S α T
  | .inl mad => .strs mad
  | .inr ad => .vanilla ad

/-- 走査で見える key と値の列。 -/
def abs : MonoDict S α T → List (Key S × α)
  | .empty => []
  | .ints mad => mad.abs (intKeys H)
  | .strs mad => mad.abs (strKeys H)
  | .vanilla ad => ad.elms.filterMap id

def NvGetInt (d : MonoDict S α T) (k : Int64) : Except Fault (Option α) :=
  match d with
  | .empty => .ok none
  | .ints mad => mad.NvGetInt (intKeys H) k
  | .strs mad => mad.NvGetInt (strKeys H) k
  | .vanilla ad => ad.NvGetInt H k

def NvGetStr (d : MonoDict S α T) (k : S) : Except Fault (Option α) :=
  match d with
  | .empty => .ok none
  | .ints mad => mad.NvGetStr (intKeys H) k
  | .strs mad => mad.NvGetStr (strKeys H) k
  | .vanilla ad => ad.NvGetStr H k

/-- vanilla の dict の `Elem`（`ElemDDictPre` / `ElemUDictPre`）：`LvalSilentInt` / `LvalSilentStr`
で探し、無ければ D（`throwOnMissing`）は `throwOOBArrayKeyException`、U は `immutable_null_base`。 -/
def ElemDictPre (ad : VanillaDict S α) (k : Key S) (throwOnMissing : Bool) :
    Except Fault (ElemResult S) := do
  match ← ad.LvalSilent H k with
  | some pos => .ok (.lval pos)
  | none => .ok (if throwOnMissing then .throwOOB k else .nullBase)

/-- `ElemInt(lval, k, throwOnMissing)`。`EmptyMonotypeDict` は `throwOnMissing` のときだけ投げる。 -/
def ElemInt (d : MonoDict S α T) (k : Int64) (throwOnMissing : Bool) :
    Except Fault (ElemResult S) :=
  match d with
  | .empty => .ok (if throwOnMissing then .throwOOB (.int k) else .nullBase)
  | .ints mad => mad.ElemInt (intKeys H) k throwOnMissing
  | .strs mad => mad.ElemInt (strKeys H) k throwOnMissing
  | .vanilla ad => ElemDictPre H ad (.int k) throwOnMissing

/-- `ElemStr(lval, k, throwOnMissing)`。`EmptyMonotypeDict::ElemStr` は `throwOnMissing` を見ずに
`throwOOBArrayKeyException` を投げる。 -/
def ElemStr (d : MonoDict S α T) (k : S) (throwOnMissing : Bool) : Except Fault (ElemResult S) :=
  match d with
  | .empty => .ok (.throwOOB (.str k))
  | .ints mad => mad.ElemStr (intKeys H) k throwOnMissing
  | .strs mad => mad.ElemStr (strKeys H) k throwOnMissing
  | .vanilla ad => ElemDictPre H ad (.str k) throwOnMissing

/-- `SetIntMove`。`EmptyMonotypeDict` は `MonotypeDict<int64_t>::MakeReserve(1, type(v))` に足す。 -/
def SetIntMove (d : MonoDict S α T) (k : Int64) (v : α) : Except Fault (MonoDict S α T) :=
  match d with
  | .empty => ofInts <$> (MonotypeDict.MakeReserve 1 (typeOf v)).SetIntMove (intKeys H) typeOf H o k v
  | .ints mad => ofInts <$> mad.SetIntMove (intKeys H) typeOf H o k v
  | .strs mad => ofStrs <$> mad.SetIntMove (strKeys H) typeOf H o k v
  | .vanilla ad => vanilla <$> ad.SetIntMove H o k v

/-- `SetStrMove`。`EmptyMonotypeDict` は `makeStrMonotypeDict`（`MakeReserve(1, type(v))` に足す）。 -/
def SetStrMove (d : MonoDict S α T) (k : S) (v : α) : Except Fault (MonoDict S α T) :=
  match d with
  | .empty => ofStrs <$> (MonotypeDict.MakeReserve 1 (typeOf v)).SetStrMove (strKeys H) typeOf H o k v
  | .ints mad => ofInts <$> mad.SetStrMove (intKeys H) typeOf H o k v
  | .strs mad => ofStrs <$> mad.SetStrMove (strKeys H) typeOf H o k v
  | .vanilla ad => vanilla <$> ad.SetStrMove H o k v

def RemoveIntMove (d : MonoDict S α T) (k : Int64) : Except Fault (MonoDict S α T) :=
  match d with
  | .empty => .ok .empty
  | .ints mad => ints <$> mad.RemoveIntMove (intKeys H) k
  | .strs mad => strs <$> mad.RemoveIntMove (strKeys H) k
  | .vanilla ad => vanilla <$> ad.RemoveIntMove H k

def RemoveStrMove (d : MonoDict S α T) (k : S) : Except Fault (MonoDict S α T) :=
  match d with
  | .empty => .ok .empty
  | .ints mad => ints <$> mad.RemoveStrMove (intKeys H) k
  | .strs mad => strs <$> mad.RemoveStrMove (strKeys H) k
  | .vanilla ad => vanilla <$> ad.RemoveStrMove H k

/-- `AppendMove`。`EmptyMonotypeDict` は `SetIntMove(ad, 0, v)`。 -/
def AppendMove (d : MonoDict S α T) (v : α) : Except Fault (MonoDict S α T × List Raised) :=
  match d with
  | .empty => (·, []) <$> SetIntMove H o typeOf .empty 0 v
  | .ints mad => (fun r => (ofInts r.1, r.2)) <$> mad.AppendMove (intKeys H) typeOf H o v
  | .strs mad => (fun r => (ofStrs r.1, r.2)) <$> mad.AppendMove (strKeys H) typeOf H o v
  | .vanilla ad => (fun r => (vanilla r.1, r.2)) <$> ad.AppendMove H o v

def PopMove (d : MonoDict S α T) : Except Fault (MonoDict S α T × Option α) :=
  match d with
  | .empty => .ok (.empty, none)
  | .ints mad => (fun r => (ints r.1, r.2)) <$> mad.PopMove (intKeys H)
  | .strs mad => (fun r => (strs r.1, r.2)) <$> mad.PopMove (strKeys H)
  | .vanilla ad => (fun r => (vanilla r.1, r.2)) <$> ad.PopMove H

end MonoDict

end Bespoke

end Hhvm
