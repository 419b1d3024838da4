import Mathlib.Logic.Function.Basic

/-!
# 大きさの級

`hphp/runtime/base/memory-manager.h` の `SIZE_CLASSES` の表と、そこから作る二つの表
`kSmallSize2Index`、`kSizeIndex2Size`、および `memory-manager-inl.h` の `computeSize2Index`、
`lookupSmallSize2Index`、`size2Index`、`sizeClass`。一つの級の列を、マクロの表・大きさから番号を
引く表・`fls64` による指数と仮数の計算、の三通りに書いている。

* 表は `SIZE_CLASS(index, lg_grp, lg_delta, ndelta, lg_delta_lookup, ncontig)` の行をそのまま
  並べる。`ncontig` はスラブの切り分けだけが読むので持たない。
* C++ の配列 `a[i]` は `a.getD i 0`。どの関数も前提（`assertx`）のもとでは表の内側しか読まない。
* `size_t` の計算は `kMaxSizeClass`（`2^48`）以下の大きさでは溢れないので `Nat` で持つ。
-/

namespace Hhvm.MemoryManager

/-- `SIZE_CLASS(index, lg_grp, lg_delta, ndelta, lg_delta_lookup, ncontig)` の一行。
`lg_delta_lookup` の `no` は `none`。 -/
structure SizeClass where
  index : Nat
  lgGrp : Nat
  lgDelta : Nat
  ndelta : Nat
  lgDeltaLookup : Option Nat
  deriving DecidableEq, Repr

/-- `SIZE_CLASSES`。行末の注釈は、その群の最後の級の大きさ。 -/
def SIZE_CLASSES : List SizeClass := [
  ⟨  0,  4,  4, 0, some 4⟩,
  ⟨  1,  4,  4, 1, some 4⟩,
  ⟨  2,  4,  4, 2, some 4⟩,
  ⟨  3,  4,  4, 3, some 4⟩,  -- 64
  ⟨  4,  6,  4, 1, some 4⟩,
  ⟨  5,  6,  4, 2, some 4⟩,
  ⟨  6,  6,  4, 3, some 4⟩,
  ⟨  7,  6,  4, 4, some 4⟩,  -- 128
  ⟨  8,  7,  5, 1, some 5⟩,
  ⟨  9,  7,  5, 2, some 5⟩,
  ⟨ 10,  7,  5, 3, some 5⟩,
  ⟨ 11,  7,  5, 4, some 5⟩,  -- 256
  ⟨ 12,  8,  6, 1, some 6⟩,
  ⟨ 13,  8,  6, 2, some 6⟩,
  ⟨ 14,  8,  6, 3, some 6⟩,
  ⟨ 15,  8,  6, 4, some 6⟩,  -- 512
  ⟨ 16,  9,  7, 1, some 7⟩,
  ⟨ 17,  9,  7, 2, some 7⟩,
  ⟨ 18,  9,  7, 3, some 7⟩,
  ⟨ 19,  9,  7, 4, some 7⟩,  -- 1K
  ⟨ 20, 10,  8, 1, some 8⟩,
  ⟨ 21, 10,  8, 2, some 8⟩,
  ⟨ 22, 10,  8, 3, some 8⟩,
  ⟨ 23, 10,  8, 4, some 8⟩,  -- 2K
  ⟨ 24, 11,  9, 1, some 9⟩,
  ⟨ 25, 11,  9, 2, some 9⟩,
  ⟨ 26, 11,  9, 3, some 9⟩,
  ⟨ 27, 11,  9, 4, some 9⟩,  -- 4K
  ⟨ 28, 12, 10, 1, none  ⟩,
  ⟨ 29, 12, 10, 2, none  ⟩,
  ⟨ 30, 12, 10, 3, none  ⟩,
  ⟨ 31, 12, 10, 4, none  ⟩,  -- 8K
  ⟨ 32, 13, 11, 1, none  ⟩,
  ⟨ 33, 13, 11, 2, none  ⟩,
  ⟨ 34, 13, 11, 3, none  ⟩,
  ⟨ 35, 13, 11, 4, none  ⟩,  -- 16K
  ⟨ 36, 14, 12, 1, none  ⟩,
  ⟨ 37, 14, 12, 2, none  ⟩,
  ⟨ 38, 14, 12, 3, none  ⟩,
  ⟨ 39, 14, 12, 4, none  ⟩,  -- 32K
  ⟨ 40, 15, 13, 1, none  ⟩,
  ⟨ 41, 15, 13, 2, none  ⟩,
  ⟨ 42, 15, 13, 3, none  ⟩,
  ⟨ 43, 15, 13, 4, none  ⟩,  -- 64K
  ⟨ 44, 16, 14, 1, none  ⟩,
  ⟨ 45, 16, 14, 2, none  ⟩,
  ⟨ 46, 16, 14, 3, none  ⟩,
  ⟨ 47, 16, 14, 4, none  ⟩,  -- 128K
  ⟨ 48, 17, 15, 1, none  ⟩,
  ⟨ 49, 17, 15, 2, none  ⟩,
  ⟨ 50, 17, 15, 3, none  ⟩,
  ⟨ 51, 17, 15, 4, none  ⟩,  -- 256K
  ⟨ 52, 18, 16, 1, none  ⟩,
  ⟨ 53, 18, 16, 2, none  ⟩,
  ⟨ 54, 18, 16, 3, none  ⟩,
  ⟨ 55, 18, 16, 4, none  ⟩,  -- 512K
  ⟨ 56, 19, 17, 1, none  ⟩,
  ⟨ 57, 19, 17, 2, none  ⟩,
  ⟨ 58, 19, 17, 3, none  ⟩,
  ⟨ 59, 19, 17, 4, none  ⟩,  -- 1M
  ⟨ 60, 20, 18, 1, none  ⟩,
  ⟨ 61, 20, 18, 2, none  ⟩,
  ⟨ 62, 20, 18, 3, none  ⟩,
  ⟨ 63, 20, 18, 4, none  ⟩,  -- 2M
  ⟨ 64, 21, 19, 1, none  ⟩,
  ⟨ 65, 21, 19, 2, none  ⟩,
  ⟨ 66, 21, 19, 3, none  ⟩,
  ⟨ 67, 21, 19, 4, none  ⟩,  -- 4M
  ⟨ 68, 22, 20, 1, none  ⟩,
  ⟨ 69, 22, 20, 2, none  ⟩,
  ⟨ 70, 22, 20, 3, none  ⟩,
  ⟨ 71, 22, 20, 4, none  ⟩,  -- 8M
  ⟨ 72, 23, 21, 1, none  ⟩,
  ⟨ 73, 23, 21, 2, none  ⟩,
  ⟨ 74, 23, 21, 3, none  ⟩,
  ⟨ 75, 23, 21, 4, none  ⟩,  -- 16M
  ⟨ 76, 24, 22, 1, none  ⟩,
  ⟨ 77, 24, 22, 2, none  ⟩,
  ⟨ 78, 24, 22, 3, none  ⟩,
  ⟨ 79, 24, 22, 4, none  ⟩,  -- 32M
  ⟨ 80, 25, 23, 1, none  ⟩,
  ⟨ 81, 25, 23, 2, none  ⟩,
  ⟨ 82, 25, 23, 3, none  ⟩,
  ⟨ 83, 25, 23, 4, none  ⟩,  -- 64M
  ⟨ 84, 26, 24, 1, none  ⟩,
  ⟨ 85, 26, 24, 2, none  ⟩,
  ⟨ 86, 26, 24, 3, none  ⟩,
  ⟨ 87, 26, 24, 4, none  ⟩,  -- 128M
  ⟨ 88, 27, 25, 1, none  ⟩,
  ⟨ 89, 27, 25, 2, none  ⟩,
  ⟨ 90, 27, 25, 3, none  ⟩,
  ⟨ 91, 27, 25, 4, none  ⟩,  -- 256M
  ⟨ 92, 28, 26, 1, none  ⟩,
  ⟨ 93, 28, 26, 2, none  ⟩,
  ⟨ 94, 28, 26, 3, none  ⟩,
  ⟨ 95, 28, 26, 4, none  ⟩,  -- 512M
  ⟨ 96, 29, 27, 1, none  ⟩,
  ⟨ 97, 29, 27, 2, none  ⟩,
  ⟨ 98, 29, 27, 3, none  ⟩,
  ⟨ 99, 29, 27, 4, none  ⟩,  -- 1G
  ⟨100, 30, 28, 1, none  ⟩,
  ⟨101, 30, 28, 2, none  ⟩,
  ⟨102, 30, 28, 3, none  ⟩,
  ⟨103, 30, 28, 4, none  ⟩,  -- 2G
  ⟨104, 31, 29, 1, none  ⟩,
  ⟨105, 31, 29, 2, none  ⟩,
  ⟨106, 31, 29, 3, none  ⟩,
  ⟨107, 31, 29, 4, none  ⟩,  -- 4G
  ⟨108, 32, 30, 1, none  ⟩,
  ⟨109, 32, 30, 2, none  ⟩,
  ⟨110, 32, 30, 3, none  ⟩,
  ⟨111, 32, 30, 4, none  ⟩,  -- 8G
  ⟨112, 33, 31, 1, none  ⟩,
  ⟨113, 33, 31, 2, none  ⟩,
  ⟨114, 33, 31, 3, none  ⟩,
  ⟨115, 33, 31, 4, none  ⟩,  -- 16G
  ⟨116, 34, 32, 1, none  ⟩,
  ⟨117, 34, 32, 2, none  ⟩,
  ⟨118, 34, 32, 3, none  ⟩,
  ⟨119, 34, 32, 4, none  ⟩,  -- 32G
  ⟨120, 35, 33, 1, none  ⟩,
  ⟨121, 35, 33, 2, none  ⟩,
  ⟨122, 35, 33, 3, none  ⟩,
  ⟨123, 35, 33, 4, none  ⟩,  -- 64G
  ⟨124, 36, 34, 1, none  ⟩,
  ⟨125, 36, 34, 2, none  ⟩,
  ⟨126, 36, 34, 3, none  ⟩,
  ⟨127, 36, 34, 4, none  ⟩,  -- 128G
  ⟨128, 37, 35, 1, none  ⟩,
  ⟨129, 37, 35, 2, none  ⟩,
  ⟨130, 37, 35, 3, none  ⟩,
  ⟨131, 37, 35, 4, none  ⟩,  -- 256G
  ⟨132, 38, 36, 1, none  ⟩,
  ⟨133, 38, 36, 2, none  ⟩,
  ⟨134, 38, 36, 3, none  ⟩,
  ⟨135, 38, 36, 4, none  ⟩,  -- 512G
  ⟨136, 39, 37, 1, none  ⟩,
  ⟨137, 39, 37, 2, none  ⟩,
  ⟨138, 39, 37, 3, none  ⟩,
  ⟨139, 39, 37, 4, none  ⟩,  -- 1T
  ⟨140, 40, 38, 1, none  ⟩,
  ⟨141, 40, 38, 2, none  ⟩,
  ⟨142, 40, 38, 3, none  ⟩,
  ⟨143, 40, 38, 4, none  ⟩,  -- 2T
  ⟨144, 41, 39, 1, none  ⟩,
  ⟨145, 41, 39, 2, none  ⟩,
  ⟨146, 41, 39, 3, none  ⟩,
  ⟨147, 41, 39, 4, none  ⟩,  -- 4T
  ⟨148, 42, 40, 1, none  ⟩,
  ⟨149, 42, 40, 2, none  ⟩,
  ⟨150, 42, 40, 3, none  ⟩,
  ⟨151, 42, 40, 4, none  ⟩,  -- 8T
  ⟨152, 43, 41, 1, none  ⟩,
  ⟨153, 43, 41, 2, none  ⟩,
  ⟨154, 43, 41, 3, none  ⟩,
  ⟨155, 43, 41, 4, none  ⟩,  -- 16T
  ⟨156, 44, 42, 1, none  ⟩,
  ⟨157, 44, 42, 2, none  ⟩,
  ⟨158, 44, 42, 3, none  ⟩,
  ⟨159, 44, 42, 4, none  ⟩,  -- 32T
  ⟨160, 45, 43, 1, none  ⟩,
  ⟨161, 45, 43, 2, none  ⟩,
  ⟨162, 45, 43, 3, none  ⟩,
  ⟨163, 45, 43, 4, none  ⟩,  -- 64T
  ⟨164, 46, 44, 1, none  ⟩,
  ⟨165, 46, 44, 2, none  ⟩,
  ⟨166, 46, 44, 3, none  ⟩,
  ⟨167, 46, 44, 4, none  ⟩,  -- 128T
  ⟨168, 47, 45, 1, none  ⟩,
  ⟨169, 47, 45, 2, none  ⟩,
  ⟨170, 47, 45, 3, none  ⟩,
  ⟨171, 47, 45, 4, none  ⟩  -- 256T
]

/-- `constexpr size_t kNumSizeClasses = 172;` -/
def kNumSizeClasses : Nat := 172

/-- `S2I_##lg_delta_lookup(index)`：`S2I_4(i)` は `i` 一つで、`S2I_{n+1}(i)` は `S2I_n(i)` を二度
並べるから `2^(n-4)` 個。`S2I_no` は何も置かない。 -/
def S2I : Option Nat → Nat → List Nat
  | none, _ => []
  | some lg, i => List.replicate (1 <<< (lg - 4)) i

/-- `kSmallSize2Index[]`：`(size-1) >> kLgSmallSizeQuantum` から級の番号を引く表。 -/
def kSmallSize2Index : List Nat :=
  SIZE_CLASSES.flatMap fun r => S2I r.lgDeltaLookup r.index

/-- `kSizeIndex2Size[]`：`(size_t{1}<<lg_grp) + (size_t{ndelta}<<lg_delta)`。 -/
def kSizeIndex2Size : List Nat :=
  SIZE_CLASSES.map fun r => (1 <<< r.lgGrp) + (r.ndelta <<< r.lgDelta)

/-- `constexpr size_t kMaxSmallSizeLookup = 4096;` -/
def kMaxSmallSizeLookup : Nat := 4096

/-- `constexpr unsigned kLgSmallSizeQuantum = 4;` -/
def kLgSmallSizeQuantum : Nat := 4

/-- `constexpr unsigned kLgSizeClassesPerDoubling = 2;` -/
def kLgSizeClassesPerDoubling : Nat := 2

/-- `constexpr size_t kSizeClassesPerDoubling = (1u << kLgSizeClassesPerDoubling);` -/
def kSizeClassesPerDoubling : Nat := 1 <<< kLgSizeClassesPerDoubling

/-- `constexpr size_t kMaxSizeClass = kSizeIndex2Size[kNumSizeClasses-1];` -/
def kMaxSizeClass : Nat := kSizeIndex2Size.getD (kNumSizeClasses - 1) 0

/-- `fls64(x)`（`util/bitops.h`）：最上位の立ったビットの位置（`bsrq`）。`assertx(x)` で `0` には
呼ばれない。 -/
def fls64 (x : Nat) : Nat := Nat.log2 x

/-- `MemoryManager::computeSize2Index(size)`（`assertx(size > 1)`）。 -/
def computeSize2Index (size : Nat) : Nat :=
  let size := size - 1
  let nBits := fls64 size
  if nBits < kLgSizeClassesPerDoubling + kLgSmallSizeQuantum then
    -- denormal sizes
    size >>> kLgSmallSizeQuantum
  else
    let exp := nBits - (kLgSizeClassesPerDoubling + kLgSmallSizeQuantum)
    let rawMantissa := size >>> (nBits - kLgSizeClassesPerDoubling)
    (exp <<< kLgSizeClassesPerDoubling) + rawMantissa

/-- `MemoryManager::lookupSmallSize2Index(size)`（`0 < size <= kMaxSmallSizeLookup`）。 -/
def lookupSmallSize2Index (size : Nat) : Nat :=
  kSmallSize2Index.getD ((size - 1) >>> kLgSmallSizeQuantum) 0

/-- `MemoryManager::size2Index(size)`（`0 < size <= kMaxSizeClass`）。 -/
def size2Index (size : Nat) : Nat :=
  if size ≤ kMaxSmallSizeLookup then lookupSmallSize2Index size else computeSize2Index size

/-- `MemoryManager::sizeIndex2Size(index)` -/
def sizeIndex2Size (index : Nat) : Nat := kSizeIndex2Size.getD index 0

/-- `MemoryManager::sizeClass(size)`（`assertx(size > 1)`）：上から `kLgSizeClassesPerDoubling + 1`
桁か、`kLgSmallSizeQuantum` 桁の単位か、粗い方に切り上げる。`nInsignificantBits` は `ssize_t`。 -/
def sizeClass (size : Nat) : Nat :=
  let size := size - 1
  let nInsignificantBits : Int := (fls64 size : Int) - kLgSizeClassesPerDoubling
  let roundTo : Nat :=
    if nInsignificantBits < kLgSmallSizeQuantum then kLgSmallSizeQuantum
    else nInsignificantBits.toNat
  ((size >>> roundTo) + 1) <<< roundTo

end Hhvm.MemoryManager
