import Hhvm.Array.VanillaVec

/-!
# `PackedBlock`：型のバイトと値の語を 8 つずつまとめた配置

`hphp/runtime/base/packed-block.h`。`stores_typed_values = false` の `VanillaVec` は要素を 8 つずつ
塊にまとめる。塊の先頭 8 バイトに型（`DataType`、1 バイト）が 8 つ、続く 64 バイトに値
（`Value`、8 バイト）が 8 つ並び、塊一つは 72 バイト（`kByteSize`）。塊は `ArrayData` の
見出し（16 バイト）のすぐ後から始まる。

番地は `size_t` の値として `UInt64` で書き、ポインタの足し算は 2^64 を法とする。
`ArrayData* ad` はその番地 `ad : UInt64` で表す。

* `LvalAt` — 添字 `k` の番地を塊を経ずに出す速い計算（`x = k & -8` と `LEA` 三つ）
* `BlockAt` と `PackedBlock.index`（`operator[]`）— 塊を経る計算。`LvalAt` の `assertx` が比べる相手
* `EntryOffset` — JIT が使う、`ad` から型と値までの差（`ptrdiff_t`）
* `PointerToIndex` — 配列の中の番地を添字に戻す。要素より前なら `-1`
-/

namespace Hhvm

/-- `tv_lval`：型のバイトの番地と値の語の番地。 -/
structure TvLval where
  type : UInt64
  val : UInt64
  deriving DecidableEq, Repr

/-- `VanillaVec::EntryOffset`：`ad` から型のバイトと値の語までの差。 -/
structure VanillaVec.EntryOffset where
  type_offset : Int64
  data_offset : Int64
  deriving DecidableEq, Repr

/-- `PackedBlock`：`m_base` は塊の先頭、型のバイト 8 つの番地。 -/
structure PackedBlock where
  m_base : UInt64
  deriving DecidableEq, Repr

namespace PackedBlock

/-- `PackedBlock::kNumItems` -/
def kNumItems : UInt64 := 8

/-- `PackedBlock::kByteSize`：塊一つのバイト数。 -/
def kByteSize : UInt64 := kNumItems * 9

/-- `size_t(-8)`：`2^64 - 8`。 -/
def sizeTNeg8 : UInt64 := 18446744073709551608

/-- `operator[](i)`（`assertx(i < kNumItems)`）：型は `m_base` から `i` バイト目、値は `Value*` で
`m_base + i + 1`、つまり `8 (i + 1)` バイト先。 -/
def index (b : PackedBlock) (i : UInt64) : TvLval :=
  ⟨b.m_base + i, b.m_base + 8 * (i + 1)⟩

/-- `operator+(i)`：`Value*` で `9 i` 語先、`72 i` バイト先の塊。`int64_t` の `i` の足し算は
2^64 を法として `i` のビット列を足すのと同じ。 -/
def add (b : PackedBlock) (i : Int64) : PackedBlock :=
  ⟨b.m_base + VanillaVec.sizeofValue.toUInt64 * (9 * i.toUInt64)⟩

/-- `BlockAt(ad, b)`：要素の始まり `ad + 1`（`sizeof(ArrayData)` バイト先）から `b` 個目の塊。
`size_t` の `b` は `operator+` の `int64_t` に直る。 -/
def BlockAt (ad b : UInt64) : PackedBlock :=
  add ⟨ad + VanillaVec.sizeofArrayData.toUInt64⟩ b.toInt64

/-- `LvalAt(ad, k)`：`x = k & size_t(-8)` として、型は要素の始まりから `8 x + k`、値は
`8 k + x + 8` バイト先。`y = k & 7` を計算しないで済ませる形。 -/
def LvalAt (ad k : UInt64) : TvLval :=
  let x := k &&& sizeTNeg8
  let a := ad + VanillaVec.sizeofArrayData.toUInt64 + 8 * x
  let b := ad + VanillaVec.sizeofArrayData.toUInt64 + 8 * k
  ⟨a + k, b + x + 8⟩

/-- `PackedBlock::EntryOffset(i)`：`i / 8` 番目の塊の中の `i % 8` 番目。 -/
def EntryOffset (i : UInt64) : VanillaVec.EntryOffset :=
  let div := i / kNumItems
  let mod := i % kNumItems
  let base := VanillaVec.sizeofArrayData.toUInt64 + kByteSize * div
  ⟨(base + VanillaVec.sizeofDataType.toUInt64 * mod).toInt64,
   (base + VanillaVec.sizeofDataType.toUInt64 * kNumItems +
      VanillaVec.sizeofValue.toUInt64 * mod).toInt64⟩

/-- `PackedBlock::PointerToIndex(ad, ptr)`：要素の始まりからの差 `diff` を塊の大きさで割り、
余りが型の 8 バイトの中か値の 64 バイトの中かで添字を出す。 -/
def PointerToIndex (ad ptr : UInt64) : Int64 :=
  let base := ad + VanillaVec.sizeofArrayData.toUInt64
  let diff := (ptr - base).toInt64
  -- `ptrdiff_t` を `size_t` の `kByteSize` で割るので、`diff` は符号なしに直ってから割られる
  let div := diff.toUInt64 / kByteSize
  let mod := diff.toUInt64 % kByteSize
  if diff < 0 then -1
  else if mod < 8 then (8 * div + mod).toInt64
  else (8 * div + mod / 8 - 1).toInt64

end PackedBlock

end Hhvm
