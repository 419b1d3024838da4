import Hhvm.Base.MemoryManager
import Hhvm.Infra.SizeClass

/-!
# 大きさの級の三通りの書き方が一致すること

`SIZE_CLASSES` の表、番号を引く表 `kSmallSize2Index`、`fls64` による計算 `computeSize2Index` が
どれも `Infra.SizeClass` の級の列（倍ごとに `2^kLgSizeClassesPerDoubling` 段、単位
`2^kLgSmallSizeQuantum`）を書いたものであることを示し、そこから

* `size2Index_spec` — `size2Index s` は `kSizeIndex2Size[i] >= s` となる最小の `i`
* `lookupSmallSize2Index_eq_computeSize2Index` — 表を引いても計算しても同じ番号
* `sizeClass_eq_sizeIndex2Size` — `sizeClass s` はその番号の級の大きさ

を出す。表そのものについて調べるのは三つの等式（`SIZE_CLASSES_index`、`kSizeIndex2Size_eq`、
`kSmallSize2Index_eq`）だけで、ほかはすべて級の列の一般の性質から来る。
-/

namespace Hhvm.MemoryManager

open Infra.SizeClass

/-! ## 表と級の列 -/

/-- 表の行は番号の順に並ぶ。 -/
theorem SIZE_CLASSES_index : SIZE_CLASSES.map SizeClass.index = List.range kNumSizeClasses := by
  set_option maxRecDepth 2000 in decide

theorem length_SIZE_CLASSES : SIZE_CLASSES.length = kNumSizeClasses := by
  simpa using congrArg List.length SIZE_CLASSES_index

/-- 第 `i` 行の `index` は `i`。 -/
theorem index_getD_SIZE_CLASSES {i : Nat} (d : SizeClass) (hi : i < kNumSizeClasses) :
    (SIZE_CLASSES.getD i d).index = i := by
  have h := congrArg (fun l => l[i]?) SIZE_CLASSES_index
  simp only [List.getElem?_map, List.getElem?_range hi] at h
  rw [List.getD_eq_getElem?_getD]
  cases hr : SIZE_CLASSES[i]? with
  | none => simp [hr] at h
  | some r => simpa [hr] using h

/-- マクロの表の大きさは級の列。 -/
theorem kSizeIndex2Size_eq :
    kSizeIndex2Size =
      (List.range kNumSizeClasses).map (classSize kLgSizeClassesPerDoubling kLgSmallSizeQuantum) := by
  set_option maxRecDepth 2000 in decide

/-- 番号を引く表の `j` 番目は、大きさ `16 j` を超える最小の級の番号。 -/
theorem kSmallSize2Index_eq :
    kSmallSize2Index =
      (List.range (kMaxSmallSizeLookup >>> kLgSmallSizeQuantum)).map fun j =>
        classIndex kLgSizeClassesPerDoubling kLgSmallSizeQuantum (j * 2 ^ kLgSmallSizeQuantum) := by
  set_option maxRecDepth 2000 in decide

theorem sizeIndex2Size_eq {i : Nat} (hi : i < kNumSizeClasses) :
    sizeIndex2Size i = classSize kLgSizeClassesPerDoubling kLgSmallSizeQuantum i := by
  simp [sizeIndex2Size, kSizeIndex2Size_eq, hi]

theorem kMaxSizeClass_eq :
    kMaxSizeClass = classSize kLgSizeClassesPerDoubling kLgSmallSizeQuantum (kNumSizeClasses - 1) :=
  sizeIndex2Size_eq (by decide)

/-! ## 三つの関数 -/

/-- `computeSize2Index s` は `s - 1` を超える最小の級の番号。 -/
theorem computeSize2Index_eq (size : Nat) :
    computeSize2Index size = classIndex kLgSizeClassesPerDoubling kLgSmallSizeQuantum (size - 1) := by
  simp only [computeSize2Index, classIndex, fls64, Nat.shiftRight_eq_div_pow, Nat.shiftLeft_eq]

/-- `sizeClass s` は `s - 1` の切り上げ `roundUp`：`ssize_t` の比較は `max` になる。 -/
theorem sizeClass_eq (size : Nat) :
    sizeClass size = roundUp kLgSizeClassesPerDoubling kLgSmallSizeQuantum (size - 1) := by
  have hroundTo : ∀ n : Nat,
      (if ((n : Int) - kLgSizeClassesPerDoubling) < kLgSmallSizeQuantum then kLgSmallSizeQuantum
        else ((n : Int) - kLgSizeClassesPerDoubling).toNat) =
        max kLgSmallSizeQuantum (n - kLgSizeClassesPerDoubling) := by
    intro n
    by_cases hc : ((n : Int) - kLgSizeClassesPerDoubling) < kLgSmallSizeQuantum
    · rw [if_pos hc]
      simp only [kLgSizeClassesPerDoubling, kLgSmallSizeQuantum] at hc ⊢
      omega
    · rw [if_neg hc]
      simp only [kLgSizeClassesPerDoubling, kLgSmallSizeQuantum] at hc ⊢
      omega
  unfold sizeClass roundUp fls64
  dsimp only
  rw [hroundTo]
  simp only [Nat.shiftRight_eq_div_pow, Nat.shiftLeft_eq]

/-- 表を引く道は、`1 ≤ s ≤ kMaxSmallSizeLookup` で `s - 1` を超える最小の級の番号を返す：
表の `j` 番目が大きさ `16 j` の番号で、下位 4 ビットは番号に効かない（`classIndex_div_mul`）。 -/
theorem lookupSmallSize2Index_eq {size : Nat} (h1 : 1 ≤ size) (h : size ≤ kMaxSmallSizeLookup) :
    lookupSmallSize2Index size =
      classIndex kLgSizeClassesPerDoubling kLgSmallSizeQuantum (size - 1) := by
  have hj : (size - 1) >>> kLgSmallSizeQuantum < kMaxSmallSizeLookup >>> kLgSmallSizeQuantum := by
    simp only [Nat.shiftRight_eq_div_pow, kMaxSmallSizeLookup, kLgSmallSizeQuantum] at h ⊢
    omega
  rw [lookupSmallSize2Index, kSmallSize2Index_eq, List.getD_eq_getElem?_getD,
    List.getElem?_map, List.getElem?_range hj, Option.map_some, Option.getD_some,
    Nat.shiftRight_eq_div_pow, classIndex_div_mul]

theorem size2Index_eq {size : Nat} (h1 : 1 ≤ size) :
    size2Index size = classIndex kLgSizeClassesPerDoubling kLgSmallSizeQuantum (size - 1) := by
  unfold size2Index
  split
  · exact lookupSmallSize2Index_eq h1 (by assumption)
  · exact computeSize2Index_eq size

/-! ## 仕様 -/

/-- `size ≤ kMaxSizeClass` なら番号は表の内側。 -/
theorem size2Index_lt {size : Nat} (h1 : 1 ≤ size) (h : size ≤ kMaxSizeClass) :
    size2Index size < kNumSizeClasses := by
  rw [size2Index_eq h1]
  rw [kMaxSizeClass_eq] at h
  have hle : classIndex kLgSizeClassesPerDoubling kLgSmallSizeQuantum (size - 1) ≤
      kNumSizeClasses - 1 := classIndex_le_iff.mpr (by omega)
  have : 0 < kNumSizeClasses := by decide
  omega

/-- **`size2Index` の仕様**：`1 ≤ s ≤ kMaxSizeClass` のとき、`size2Index s` は
`kSizeIndex2Size[i] >= s` となる最小の番号 `i`。 -/
theorem size2Index_spec {size : Nat} (h1 : 1 ≤ size) (h : size ≤ kMaxSizeClass) :
    size2Index size < kNumSizeClasses ∧ size ≤ sizeIndex2Size (size2Index size) ∧
      ∀ j < size2Index size, sizeIndex2Size j < size := by
  have hlt := size2Index_lt h1 h
  refine ⟨hlt, ?_, ?_⟩
  · rw [sizeIndex2Size_eq hlt, size2Index_eq h1]
    have := lt_classSize_classIndex (k := kLgSizeClassesPerDoubling)
      (q := kLgSmallSizeQuantum) (size - 1)
    omega
  · intro j hj
    rw [sizeIndex2Size_eq (by omega)]
    rw [size2Index_eq h1] at hj
    have := classSize_le_of_lt_classIndex hj
    omega

/-- 表を引く道と計算する道は `2 ≤ s ≤ kMaxSmallSizeLookup` で一致する。 -/
theorem lookupSmallSize2Index_eq_computeSize2Index {size : Nat} (h2 : 2 ≤ size)
    (h : size ≤ kMaxSmallSizeLookup) :
    lookupSmallSize2Index size = computeSize2Index size := by
  rw [lookupSmallSize2Index_eq (by omega) h, computeSize2Index_eq]

/-- `sizeClass s` は `s` の番号の級の大きさ。 -/
theorem sizeClass_eq_sizeIndex2Size {size : Nat} (h1 : 1 ≤ size) (h : size ≤ kMaxSizeClass) :
    sizeClass size = sizeIndex2Size (size2Index size) := by
  rw [sizeIndex2Size_eq (size2Index_lt h1 h), size2Index_eq h1, classSize_classIndex,
    sizeClass_eq]

end Hhvm.MemoryManager
