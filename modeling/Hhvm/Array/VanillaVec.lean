import Hhvm.Base.MemoryManager

/-!
# `VanillaVec` の容量

`hphp/runtime/base/vanilla-vec-defs.h` の容量の計算と、`vanilla-vec.cpp` の `Grow` が選ぶ大きさの級。
要素の中身は扱わず、大きさの級の番号と容量（要素の個数）の対応だけを書く。

* 要素は `PackedBlock`（型のバイト 8 つと値の語 8 つで 72 バイト）に並ぶ
  （`stores_typed_values = false`）。
* `sizeof(ArrayData)` は 16（`array-data.cpp` の `static_assert`）、`sizeof(TypedValue)` は 16、
  `sizeof(Value)` は 8、`sizeof(DataType)` は 1。
* 表 `kSizeIndex2VanillaVecCapacity` は定数式で作られ、その中の `throw` は翻訳を止める。
  表の値は、どの行も例外を投げない（`sizeClassParams2VanillaVecCapacity_ok`）上でのもの。
-/

namespace Hhvm.VanillaVec

open Hhvm.MemoryManager

/-- `VanillaVec::stores_typed_values` -/
def storesTypedValues : Bool := false

/-- `VanillaVec::SmallSize`：容量 0 を頼まれたときの容量。 -/
def SmallSize : Nat := 5

/-- `VanillaVec::SmallSizeIndex` -/
def SmallSizeIndex : Nat := 3

/-- `VanillaVec::MaxSizeIndex` -/
def MaxSizeIndex : Nat := 119

/-- `sizeof(ArrayData)` -/
def sizeofArrayData : Nat := 16

/-- `sizeof(TypedValue)` -/
def sizeofTypedValue : Nat := 16

/-- `sizeof(Value)` -/
def sizeofValue : Nat := 8

/-- `sizeof(DataType)` -/
def sizeofDataType : Nat := 1

/-- `std::numeric_limits<uint32_t>::max()` -/
def uint32Max : Nat := 4294967295

/-- `size_t(-16)`：`2^64 - 16`。 -/
def sizeTNeg16 : Nat := 18446744073709551600

/-- `bytes2VanillaVecCapacity(bytes)`：`9` 語ごとに要素 `8` つ、端の `r` 語には `r - 1` 個。 -/
def bytes2VanillaVecCapacity (bytes : Nat) : Nat :=
  if storesTypedValues then bytes / sizeofTypedValue
  else
    let values := bytes / sizeofValue
    values / 9 * 8 + (max ((values % 9 : Nat) - 1 : Int) 0).toNat

/-- `sizeClassParams2VanillaVecCapacity(index, lg_grp, lg_delta, ndelta)`：`MaxSizeIndex` を超える級は
容量 0。`uint32_t` に入らない容量は `std::length_error`。 -/
def sizeClassParams2VanillaVecCapacity (index lg_grp lg_delta ndelta : Nat) : Except String Nat :=
  if index > MaxSizeIndex then .ok 0
  else
    let total := (1 <<< lg_grp) + (ndelta <<< lg_delta)
    let capacity := bytes2VanillaVecCapacity (total - sizeofArrayData)
    if capacity ≤ uint32Max then .ok capacity
    else .error "capacity > uint32_t::max"

/-- `kSizeIndex2VanillaVecCapacity[]`：`SIZE_CLASSES` の行ごとの容量。 -/
def kSizeIndex2VanillaVecCapacity : List Nat :=
  SIZE_CLASSES.map fun r =>
    match sizeClassParams2VanillaVecCapacity r.index r.lgGrp r.lgDelta r.ndelta with
    | .ok c => c
    | .error _ => 0

/-- `VanillaVec::capacityToSizeBytes(capacity)`：一要素 9 バイトで、割り当ての揃えの 16 バイトに
切り上げる。`capacity` は `uint32_t` に入るので `size_t` は溢れない。 -/
def capacityToSizeBytes (capacity : Nat) : Nat :=
  if storesTypedValues then sizeofArrayData + capacity * sizeofTypedValue
  else
    let size := sizeofArrayData + capacity * (sizeofDataType + sizeofValue)
    (size + 15) &&& sizeTNeg16

/-- `VanillaVec::capacityToSizeIndex(capacity)`（`assertx(index <= MaxSizeIndex)`）。 -/
def capacityToSizeIndex (capacity : Nat) : Nat :=
  if capacity ≤ SmallSize then SmallSizeIndex
  else size2Index (capacityToSizeBytes capacity)

/-- `VanillaVec::capacity(ad)`：`ad` をその大きさの級 `sizeClass(ad)` で表す。 -/
def capacity (sizeIndex : Nat) : Nat :=
  kSizeIndex2VanillaVecCapacity.getD sizeIndex 0

/-- `VanillaVec::Grow(adIn, copy)` が割り当てる級：`sizeClass(adIn) + kSizeClassesPerDoubling`。
`MaxSizeIndex` を超えれば `nullptr`（`none`）。 -/
def growSizeIndex (sizeIndex : Nat) : Option Nat :=
  let sizeIndex := sizeIndex + kSizeClassesPerDoubling
  if sizeIndex > MaxSizeIndex then none else some sizeIndex

end Hhvm.VanillaVec
