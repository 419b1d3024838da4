import Hhvm.Array.VanillaVec
import Hhvm.Base.Properties.SizeIndex

/-!
# `VanillaVec` の容量と大きさの級

* `le_capacity_capacityToSizeIndex` — `capacityToSizeIndex c` の級には要素が `c` 個入る
  （`MakeReserveImpl` の `assertx(capacity(ad) >= cap)`）
* `capacityToSizeIndex_le_iff` — `assertx(index <= MaxSizeIndex)` を満たす容量は、ちょうど
  `MaxSizeIndex` の級の容量以下のもの
* `capacity_lt_of_growSizeIndex` — `Grow` の選ぶ級の容量は元より真に大きい

容量の表は `SIZE_CLASSES` の行ごとの計算で、`kSizeIndex2VanillaVecCapacity_eq` がそれを級の列の
言葉に直す。容量は 9 語ごとに 8 要素なので、大きさが `9 c + 16` バイト以上で 8 の倍数なら
`c` 要素入る（`le_bytes2VanillaVecCapacity`）、というのがどの証明でも要になる。
-/

namespace Hhvm.VanillaVec

open Hhvm.MemoryManager Infra.SizeClass

/-! ## バイト数と容量 -/

theorem bytes2VanillaVecCapacity_eq (bytes : Nat) :
    bytes2VanillaVecCapacity bytes = bytes / 8 / 9 * 8 + (bytes / 8 % 9 - 1) := by
  simp only [bytes2VanillaVecCapacity, storesTypedValues, sizeofValue, Bool.false_eq_true,
    if_false]
  omega

/-- 8 の倍数のバイト数が `9 c` 以上なら `c` 要素入る。 -/
theorem le_bytes2VanillaVecCapacity {c bytes : Nat} (h : 9 * c ≤ bytes) (h8 : bytes % 8 = 0) :
    c ≤ bytes2VanillaVecCapacity bytes := by
  rw [bytes2VanillaVecCapacity_eq]
  omega

/-- 16 バイト増えれば容量は真に増える。 -/
theorem bytes2VanillaVecCapacity_lt {bytes bytes' : Nat} (h : bytes + 16 ≤ bytes') :
    bytes2VanillaVecCapacity bytes < bytes2VanillaVecCapacity bytes' := by
  rw [bytes2VanillaVecCapacity_eq, bytes2VanillaVecCapacity_eq]
  omega

/-- `c` 要素入るなら、バイト数は `9 c` 以上。 -/
theorem mul_le_of_le_bytes2VanillaVecCapacity {c bytes : Nat}
    (h : c ≤ bytes2VanillaVecCapacity bytes) : 9 * c ≤ bytes := by
  rw [bytes2VanillaVecCapacity_eq] at h
  omega

/-! ## 容量の表 -/

/-- 容量の表は級の列の大きさから計算したもの（`MaxSizeIndex` の先は 0）。どの行も
`uint32_t` に収まり、定数式の `throw` には届かない。 -/
theorem kSizeIndex2VanillaVecCapacity_eq :
    kSizeIndex2VanillaVecCapacity = (List.range kNumSizeClasses).map fun i =>
      if i > MaxSizeIndex then 0
      else bytes2VanillaVecCapacity
        (classSize kLgSizeClassesPerDoubling kLgSmallSizeQuantum i - sizeofArrayData) := by
  set_option maxRecDepth 2000 in decide

theorem capacity_eq {i : Nat} (hi : i ≤ MaxSizeIndex) :
    capacity i = bytes2VanillaVecCapacity
      (classSize kLgSizeClassesPerDoubling kLgSmallSizeQuantum i - sizeofArrayData) := by
  have hlt : i < kNumSizeClasses := lt_of_le_of_lt hi (by decide)
  simp [capacity, kSizeIndex2VanillaVecCapacity_eq, hlt, Nat.not_lt.mpr hi]

/-- `static_assert(kSizeIndex2VanillaVecCapacity[SmallSizeIndex] == SmallSize)` -/
theorem capacity_SmallSizeIndex : capacity SmallSizeIndex = SmallSize := by
  rw [capacity_eq (by decide)]
  decide

/-- `MaxSizeIndex` までの級では、容量は級とともに増える。 -/
theorem capacity_mono {i j : Nat} (hij : i ≤ j) (hj : j ≤ MaxSizeIndex) :
    capacity i ≤ capacity j := by
  rw [capacity_eq (le_trans hij hj), capacity_eq hj, bytes2VanillaVecCapacity_eq,
    bytes2VanillaVecCapacity_eq]
  have := classSize_strictMono.monotone (f := classSize kLgSizeClassesPerDoubling
    kLgSmallSizeQuantum) hij
  omega

/-! ## 容量から級へ -/

/-- `(size + 15) & size_t(-16)` は `size_t` の内側で 16 の倍数への切り上げ。 -/
theorem and_sizeTNeg16 {n : Nat} (h : n < 2 ^ 64) : n &&& sizeTNeg16 = n / 16 * 16 := by
  have hmask : sizeTNeg16 = (2 ^ 60 - 1) <<< 4 := by decide
  rw [hmask, show n / 16 * 16 = (n >>> 4) <<< 4 by
    simp [Nat.shiftLeft_eq, Nat.shiftRight_eq_div_pow]]
  apply Nat.eq_of_testBit_eq
  intro i
  simp only [Nat.testBit_and, Nat.testBit_shiftLeft, Nat.testBit_shiftRight,
    Nat.testBit_two_pow_sub_one]
  -- 下の 4 ビットは落とし、64 ビット目から先は `n` の側が 0
  by_cases hi : 4 ≤ i
  · by_cases h64 : i < 64
    · simp [hi, show i - 4 < 60 by omega]
    · have hn : n.testBit i = false :=
        Nat.testBit_lt_two_pow (lt_of_lt_of_le h (Nat.pow_le_pow_right (by decide) (by omega)))
      simp [hi, hn, show ¬ (i - 4 < 60) by omega]
  · simp [hi]

theorem capacityToSizeBytes_eq {c : Nat} (hc : c ≤ uint32Max) :
    capacityToSizeBytes c = (16 + 9 * c + 15) / 16 * 16 := by
  simp only [capacityToSizeBytes, storesTypedValues, Bool.false_eq_true, if_false,
    sizeofArrayData, sizeofDataType, sizeofValue]
  rw [and_sizeTNeg16 (by simp only [uint32Max] at hc; omega)]
  congr 2
  omega

/-- `SmallSize` を超える容量の級は、`9 c + 16` を 16 に切り上げたバイト数の級。 -/
theorem capacityToSizeIndex_eq {c : Nat} (h5 : SmallSize < c) (hc : c ≤ uint32Max) :
    capacityToSizeIndex c = classIndex kLgSizeClassesPerDoubling kLgSmallSizeQuantum
      ((16 + 9 * c + 15) / 16 * 16 - 1) := by
  rw [capacityToSizeIndex, if_neg (Nat.not_le.mpr h5), capacityToSizeBytes_eq hc,
    size2Index_eq (by omega)]

/-- **容量の保証**：`uint32_t` の容量 `c` が `capacityToSizeIndex` の `assertx` を満たすなら、
選ばれた級には `c` 要素入る。 -/
theorem le_capacity_capacityToSizeIndex {c : Nat} (hc : c ≤ uint32Max)
    (h : capacityToSizeIndex c ≤ MaxSizeIndex) : c ≤ capacity (capacityToSizeIndex c) := by
  by_cases h5 : c ≤ SmallSize
  · rw [capacityToSizeIndex, if_pos h5, capacity_SmallSizeIndex]
    exact h5
  · rw [capacityToSizeIndex_eq (Nat.lt_of_not_le h5) hc] at h ⊢
    rw [capacity_eq h]
    -- 級の大きさは切り上げたバイト数以上で、16 の倍数
    have hsize := lt_classSize_classIndex (k := kLgSizeClassesPerDoubling)
      (q := kLgSmallSizeQuantum) ((16 + 9 * c + 15) / 16 * 16 - 1)
    have hdvd := pow_dvd_classSize (k := kLgSizeClassesPerDoubling) (q := kLgSmallSizeQuantum)
      (classIndex kLgSizeClassesPerDoubling kLgSmallSizeQuantum ((16 + 9 * c + 15) / 16 * 16 - 1))
    simp only [kLgSmallSizeQuantum, sizeofArrayData] at hsize hdvd ⊢
    apply le_bytes2VanillaVecCapacity <;> omega

/-- `assertx(index <= MaxSizeIndex)` を満たす `uint32_t` の容量は、ちょうど `MaxSizeIndex` の級の
容量以下のもの。 -/
theorem capacityToSizeIndex_le_iff {c : Nat} (hc : c ≤ uint32Max) :
    capacityToSizeIndex c ≤ MaxSizeIndex ↔ c ≤ capacity MaxSizeIndex := by
  constructor
  · intro h
    exact le_trans (le_capacity_capacityToSizeIndex hc h) (capacity_mono h le_rfl)
  · intro h
    by_cases h5 : c ≤ SmallSize
    · rw [capacityToSizeIndex, if_pos h5]
      decide
    · rw [capacityToSizeIndex_eq (Nat.lt_of_not_le h5) hc]
      apply classIndex_le_iff.mpr
      rw [capacity_eq le_rfl] at h
      have h9 := mul_le_of_le_bytes2VanillaVecCapacity h
      have hmax : classSize kLgSizeClassesPerDoubling kLgSmallSizeQuantum MaxSizeIndex =
          34359738368 := by decide
      simp only [hmax, sizeofArrayData] at h9 ⊢
      omega

/-! ## `Grow` -/

/-- **`Grow` は容量を増やす**：`sizeClass(adIn) + kSizeClassesPerDoubling` の級が `MaxSizeIndex`
以内なら、その容量は元の級の容量より真に大きい。 -/
theorem capacity_lt_of_growSizeIndex {i j : Nat} (h : growSizeIndex i = some j) :
    capacity i < capacity j := by
  unfold growSizeIndex at h
  dsimp only at h
  split at h
  · cases h
  · cases h
    rename_i hle
    have h4 : kSizeClassesPerDoubling = 4 := rfl
    rw [h4] at hle ⊢
    rw [capacity_eq (by omega), capacity_eq (by omega)]
    apply bytes2VanillaVecCapacity_lt
    -- 4 段上の級は 1 段上の級より小さくなく、1 段上がれば単位（16 バイト）以上増える
    have hstep := classSize_add_pow_le (k := kLgSizeClassesPerDoubling)
      (q := kLgSmallSizeQuantum) i
    have hmono := classSize_strictMono.monotone (f := classSize kLgSizeClassesPerDoubling
      kLgSmallSizeQuantum) (show i + 1 ≤ i + 4 by omega)
    -- どの級も最小の級（16 バイト）以上なので、`- sizeofArrayData` は切り捨てない
    have hpos := classSize_strictMono.monotone (f := classSize kLgSizeClassesPerDoubling
      kLgSmallSizeQuantum) (Nat.zero_le i)
    have h0 : classSize kLgSizeClassesPerDoubling kLgSmallSizeQuantum 0 = 16 := by decide
    have h16 : 2 ^ kLgSmallSizeQuantum = 16 := rfl
    simp only [sizeofArrayData]
    omega

/-! ## 大きさの級の算術 -/

/-- 大きさの級の算術は正確：`size2Index` は大きさの収まる最小の級を選び、表を引く道と計算する道は
一致し、`sizeClass` はその級の大きさで、`VanillaVec` の級は頼んだ容量を収め、`Grow` の級は容量を
増やす。 -/
theorem sizeClass_arithmetic_exact :
    (∀ s, 1 ≤ s → s ≤ kMaxSizeClass →
        size2Index s < kNumSizeClasses ∧ s ≤ sizeIndex2Size (size2Index s) ∧
          ∀ j < size2Index s, sizeIndex2Size j < s) ∧
      (∀ s, 2 ≤ s → s ≤ kMaxSmallSizeLookup → lookupSmallSize2Index s = computeSize2Index s) ∧
      (∀ s, 1 ≤ s → s ≤ kMaxSizeClass → sizeClass s = sizeIndex2Size (size2Index s)) ∧
      (∀ c, c ≤ uint32Max → capacityToSizeIndex c ≤ MaxSizeIndex →
        c ≤ capacity (capacityToSizeIndex c)) ∧
      (∀ i j, growSizeIndex i = some j → capacity i < capacity j) := by
  refine ⟨?_, ?_, ?_, ?_, ?_⟩
  · intro s h1 h
    exact size2Index_spec h1 h
  · intro s h2 h
    exact lookupSmallSize2Index_eq_computeSize2Index h2 h
  · intro s h1 h
    exact sizeClass_eq_sizeIndex2Size h1 h
  · intro c hc h
    exact le_capacity_capacityToSizeIndex hc h
  · intro i j h
    exact capacity_lt_of_growSizeIndex h

/-- 100 バイトは級 6（112 バイト）に入り、表を引く道と計算する道が一致する。容量 1000 の
`VanillaVec` の級には 1000 要素が入り、小さい級 `SmallSizeIndex` の `Grow` は級 7 を選んで容量を
増やす。 -/
theorem sizeClass_arithmetic_exact_sample :
    (size2Index 100 < kNumSizeClasses ∧ 100 ≤ sizeIndex2Size (size2Index 100) ∧
      ∀ j < size2Index 100, sizeIndex2Size j < 100) ∧
    lookupSmallSize2Index 100 = computeSize2Index 100 ∧
    sizeClass 100 = sizeIndex2Size (size2Index 100) ∧
    1000 ≤ capacity (capacityToSizeIndex 1000) ∧
    capacity SmallSizeIndex < capacity 7 := by
  obtain ⟨hidx, hlookup, hclass, hcap, hgrow⟩ := sizeClass_arithmetic_exact
  have h100 : 100 ≤ kMaxSizeClass := by decide
  exact ⟨hidx 100 (by decide) h100, hlookup 100 (by decide) (by decide),
    hclass 100 (by decide) h100, hcap 1000 (by decide) (by decide),
    hgrow SmallSizeIndex 7 (by decide)⟩

end Hhvm.VanillaVec
