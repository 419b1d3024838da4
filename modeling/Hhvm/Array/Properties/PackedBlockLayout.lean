import Hhvm.Array.PackedBlock
import Hhvm.Array.Properties.VanillaVecCapacity
import Hhvm.Infra.Bytes

/-!
# `PackedBlock` の三つの番地の計算は同じ配置を指す

添字 `i` の型のバイトは要素の始まりから `typeOffset i`、値の語は `valueOffset i` バイト目にある
（`i / 8` 番目の塊の中の `i % 8` 番目）。これを配置の仕様とし、

* `LvalAt_eq_index_BlockAt` — 速い `LvalAt` は塊を経る `BlockAt(ad, k / 8)[k & 7]` と同じ番地
  （`LvalAt` の `assertx`）。どの `k` でも 2^64 を法として成り立つ
* `EntryOffset_eq_sub_LvalAt` — JIT の `EntryOffset` も同じ差
* `PointerToIndex_type`、`PointerToIndex_val` — `PointerToIndex` は型のバイトからも、値の語の
  どのバイトからも添字に戻す
* `val_add_le_capacityToSizeBytes` — 容量 `c` の配列の大きさ `capacityToSizeBytes c` に、
  添字 `i < c` の型と値が収まる
* `isGreatest_bytes2VanillaVecCapacity` — `bytes2VanillaVecCapacity b` は `b` バイトに収まる最大の容量

番地の計算は `UInt64` の環の等式に直して `grind` が閉じる。`k & size_t(-8)` と `k & 7` だけは
`toNat` に落として bit 演算の補題で読む。`PointerToIndex` は `ptrdiff_t` の差が負でないとき
（塊が `ad` から 2^63 バイトの内にあるとき）だけ添字を返すので、逆向きの定理はその範囲で言う。
-/

namespace Hhvm.PackedBlock

/-! ## 配置の仕様 -/

/-- 添字 `i` の型のバイトの、要素の始まりからの位置。 -/
def typeOffset (i : Nat) : Nat := 72 * (i / 8) + i % 8

/-- 添字 `i` の値の語の、要素の始まりからの位置：塊の型の 8 バイトの後の `i % 8` 語目。 -/
def valueOffset (i : Nat) : Nat := 72 * (i / 8) + 8 + 8 * (i % 8)

/-- 容量 `c` の要素が、要素の始まりから `b` バイトの内に収まる。 -/
def EntriesFit (b c : Nat) : Prop := ∀ i < c, typeOffset i + 1 ≤ b ∧ valueOffset i + 8 ≤ b

theorem typeOffset_lt_valueOffset (i : Nat) : typeOffset i < valueOffset i := by
  unfold typeOffset valueOffset
  omega

/-! ## 定数 -/

@[simp] theorem sizeofArrayData_toUInt64 : VanillaVec.sizeofArrayData.toUInt64 = 16 := rfl

@[simp] theorem sizeofValue_toUInt64 : VanillaVec.sizeofValue.toUInt64 = 8 := rfl

@[simp] theorem sizeofDataType_toUInt64 : VanillaVec.sizeofDataType.toUInt64 = 1 := rfl

@[simp] theorem kNumItems_eq : kNumItems = 8 := rfl

@[simp] theorem kByteSize_eq : kByteSize = 72 := rfl

/-! ## `size_t` の mask -/

theorem div_add_mod_eight (k : UInt64) : 8 * (k / 8) + k % 8 = k := by
  have hk := k.toNat_lt
  apply UInt64.toNat_inj.mp
  simp only [UInt64.toNat_add, UInt64.toNat_mul, UInt64.toNat_div, UInt64.toNat_mod,
    UInt64.reduceToNat]
  omega

/-- `k & size_t(-8)` は `k` を 8 の倍数に切り下げる。 -/
theorem and_sizeTNeg8 (k : UInt64) : k &&& sizeTNeg8 = 8 * (k / 8) := by
  have hmask : (18446744073709551608 : Nat) = (2 ^ 61 - 1) <<< 3 := by decide
  have hk := k.toNat_lt
  apply UInt64.toNat_inj.mp
  rw [UInt64.toNat_and, show sizeTNeg8.toNat = 18446744073709551608 from rfl, hmask,
    Infra.Bytes.and_ones_shiftLeft, Nat.shiftLeft_eq, Nat.shiftRight_eq_div_pow]
  simp only [UInt64.toNat_mul, UInt64.toNat_div, UInt64.reduceToNat]
  omega

/-- `k & 7` は `k` を 8 で割った余り。 -/
theorem and_seven (k : UInt64) : k &&& 7 = k % 8 := by
  apply UInt64.toNat_inj.mp
  rw [UInt64.toNat_and, UInt64.toNat_mod]
  exact Nat.and_two_pow_sub_one_eq_mod _ 3

/-! ## 三つの計算を一つの形に

どれも「要素の始まり `ad + 16` から塊 `k / 8` つ分と、塊の中の位置」の形になる。 -/

theorem LvalAt_eq (ad k : UInt64) :
    LvalAt ad k = ⟨ad + 16 + (72 * (k / 8) + k % 8), ad + 16 + (72 * (k / 8) + 8 + 8 * (k % 8))⟩ := by
  have hk := div_add_mod_eight k
  simp only [LvalAt, and_sizeTNeg8, sizeofArrayData_toUInt64, TvLval.mk.injEq]
  -- `x = 8 (k / 8)` と `k = 8 (k / 8) + k % 8` から環の等式
  constructor <;> grind

theorem index_BlockAt (ad b i : UInt64) :
    (BlockAt ad b).index i = ⟨ad + 16 + 72 * b + i, ad + 16 + 72 * b + 8 * (i + 1)⟩ := by
  simp only [BlockAt, add, index, sizeofArrayData_toUInt64, sizeofValue_toUInt64,
    UInt64.toUInt64_toInt64, TvLval.mk.injEq]
  constructor <;> grind

theorem EntryOffset_eq (i : UInt64) :
    EntryOffset i = ⟨(16 + (72 * (i / 8) + i % 8)).toInt64,
      (16 + (72 * (i / 8) + 8 + 8 * (i % 8))).toInt64⟩ := by
  simp only [EntryOffset, kNumItems_eq, kByteSize_eq, sizeofArrayData_toUInt64,
    sizeofDataType_toUInt64, sizeofValue_toUInt64, VanillaVec.EntryOffset.mk.injEq]
  constructor <;> congr 1 <;> grind

/-- `LvalAt` の `assertx(lval == PackedBlock::BlockAt(ad, k / 8)[k & 7])`。 -/
theorem LvalAt_eq_index_BlockAt (ad k : UInt64) :
    LvalAt ad k = (BlockAt ad (k / 8)).index (k &&& 7) := by
  have hk := div_add_mod_eight k
  rw [LvalAt_eq, index_BlockAt, and_seven, TvLval.mk.injEq]
  constructor <;> grind

/-- JIT の `EntryOffset(k)` は `LvalAt(ad, k)` の番地の `ad` からの差。 -/
theorem EntryOffset_eq_sub_LvalAt (ad k : UInt64) :
    EntryOffset k = ⟨((LvalAt ad k).type - ad).toInt64, ((LvalAt ad k).val - ad).toInt64⟩ := by
  rw [EntryOffset_eq, LvalAt_eq, VanillaVec.EntryOffset.mk.injEq]
  constructor <;> congr 1 <;> grind

/-! ## 番地を数として読む -/

/-- 塊 `k / 8` の中の位置 `j` は、`2^64` に届かなければ数としてもそのまま足し算。 -/
theorem toNat_block_add (k j : UInt64) (h : 72 * (k.toNat / 8) + j.toNat < 2 ^ 64) :
    (72 * (k / 8) + j).toNat = 72 * (k.toNat / 8) + j.toNat := by
  simp only [UInt64.toNat_add, UInt64.toNat_mul, UInt64.toNat_div, UInt64.reduceToNat]
  omega

/-- 型のバイトの位置は、`2^64` に届かなければ数としても `typeOffset`。 -/
theorem toNat_typeOffset (k : UInt64) (hk : 72 * (k.toNat / 8) + 8 ≤ 2 ^ 64) :
    (72 * (k / 8) + k % 8).toNat = typeOffset k.toNat := by
  rw [toNat_block_add k _ (by simp only [UInt64.toNat_mod, UInt64.reduceToNat]; omega),
    UInt64.toNat_mod]
  rfl

/-- 値の語の位置は、`2^64` に届かなければ数としても `valueOffset`。 -/
theorem toNat_valueOffset (k : UInt64) (hk : 72 * (k.toNat / 8) + 72 ≤ 2 ^ 64) :
    (72 * (k / 8) + 8 + 8 * (k % 8)).toNat = valueOffset k.toNat := by
  have hmod : (8 + 8 * (k % 8)).toNat = 8 + 8 * (k.toNat % 8) := by
    simp only [UInt64.toNat_add, UInt64.toNat_mul, UInt64.toNat_mod, UInt64.reduceToNat]
    omega
  rw [add_assoc, toNat_block_add k _ (by omega), hmod, valueOffset]
  omega

/-- 型のバイトの `ad` からの差は、見出しの 16 バイトと `typeOffset`。 -/
theorem toNat_type_sub (ad k : UInt64) (hk : 72 * (k.toNat / 8) + 88 ≤ 2 ^ 64) :
    ((LvalAt ad k).type - ad).toNat = 16 + typeOffset k.toNat := by
  rw [LvalAt_eq, show ad + 16 + (72 * (k / 8) + k % 8) - ad = 16 + (72 * (k / 8) + k % 8) by grind,
    UInt64.toNat_add, toNat_typeOffset k (by omega)]
  simp only [UInt64.reduceToNat, typeOffset]
  omega

/-- 値の語の `ad` からの差は、見出しの 16 バイトと `valueOffset`。 -/
theorem toNat_val_sub (ad k : UInt64) (hk : 72 * (k.toNat / 8) + 88 ≤ 2 ^ 64) :
    ((LvalAt ad k).val - ad).toNat = 16 + valueOffset k.toNat := by
  rw [LvalAt_eq, show ad + 16 + (72 * (k / 8) + 8 + 8 * (k % 8)) - ad =
      16 + (72 * (k / 8) + 8 + 8 * (k % 8)) by grind, UInt64.toNat_add,
    toNat_valueOffset k (by omega)]
  simp only [UInt64.reduceToNat, valueOffset]
  omega

/-! ## `PointerToIndex` -/

/-- `2^63` 未満の差は、`ptrdiff_t` として負でない。 -/
theorem not_toInt64_lt_zero {u : UInt64} (h : u.toNat < 2 ^ 63) : ¬ u.toInt64 < 0 := by
  rw [Int64.lt_iff_toInt_lt, Int64.toInt, UInt64.toBitVec_toInt64,
    BitVec.toInt_eq_toNat_of_lt (by rw [UInt64.toNat_toBitVec]; omega)]
  simp

/-- 要素の始まりから `off` 先の番地。差が負でなければ、塊の大きさで割った商と余りで添字を出す。 -/
theorem PointerToIndex_add (ad off : UInt64) (h : off.toNat < 2 ^ 63) :
    PointerToIndex ad (ad + 16 + off) =
      if off % 72 < 8 then (8 * (off / 72) + off % 72).toInt64
      else (8 * (off / 72) + off % 72 / 8 - 1).toInt64 := by
  simp only [PointerToIndex, sizeofArrayData_toUInt64, kByteSize_eq, add_sub_cancel_left,
    UInt64.toUInt64_toInt64, not_toInt64_lt_zero h, if_false]

/-- 塊 `k / 8` の中の位置 `j`（`j < 72`）を塊の大きさで割ると、商は `k / 8`、余りは `j`。 -/
theorem div_mod_kByteSize (k j : UInt64) (hj : j.toNat < 72)
    (h : 72 * (k.toNat / 8) + 72 ≤ 2 ^ 64) :
    (72 * (k / 8) + j) / 72 = k / 8 ∧ (72 * (k / 8) + j) % 72 = j := by
  have hoff := toNat_block_add k j (by omega)
  constructor
  · apply UInt64.toNat_inj.mp
    rw [UInt64.toNat_div, hoff, UInt64.toNat_div]
    simp only [UInt64.reduceToNat]
    omega
  · apply UInt64.toNat_inj.mp
    rw [UInt64.toNat_mod, hoff]
    simp only [UInt64.reduceToNat]
    omega

/-- `PointerToIndex` は添字 `k` の型のバイトの番地を `k` に戻す。 -/
theorem PointerToIndex_type (ad k : UInt64) (hk : 72 * (k.toNat / 8) + 72 ≤ 2 ^ 63) :
    PointerToIndex ad (LvalAt ad k).type = k.toInt64 := by
  have hr : (k % 8).toNat < 8 := by
    rw [UInt64.toNat_mod]
    exact Nat.mod_lt _ (by decide)
  obtain ⟨hdiv, hmod⟩ := div_mod_kByteSize k (k % 8) (by omega) (by omega)
  have hlt : k % 8 < 8 := UInt64.lt_iff_toNat_lt.mpr hr
  have hoff : (72 * (k / 8) + k % 8).toNat < 2 ^ 63 := by
    rw [toNat_typeOffset k (by omega), typeOffset]
    omega
  rw [LvalAt_eq, PointerToIndex_add ad _ hoff, hdiv, hmod, if_pos hlt, div_add_mod_eight]

/-- `PointerToIndex` は添字 `k` の値の語のどのバイトの番地も `k` に戻す。 -/
theorem PointerToIndex_val (ad k : UInt64) (hk : 72 * (k.toNat / 8) + 72 ≤ 2 ^ 63)
    (j : UInt64) (hj : j < 8) :
    PointerToIndex ad ((LvalAt ad k).val + j) = k.toInt64 := by
  have hj' : j.toNat < 8 := UInt64.lt_iff_toNat_lt.mp hj
  -- 塊の中の位置は `8 + 8 (k % 8) + j`：型の 8 バイトより後
  have hin : (8 + 8 * (k % 8) + j).toNat = 8 + 8 * (k.toNat % 8) + j.toNat := by
    simp only [UInt64.toNat_add, UInt64.toNat_mul, UInt64.toNat_mod, UInt64.reduceToNat]
    omega
  obtain ⟨hdiv, hmod⟩ := div_mod_kByteSize k (8 + 8 * (k % 8) + j) (by omega) (by omega)
  have hge : ¬ 8 + 8 * (k % 8) + j < 8 := by
    rw [UInt64.lt_iff_toNat_lt, hin]
    simp only [UInt64.reduceToNat]
    omega
  have hoff : (LvalAt ad k).val + j = ad + 16 + (72 * (k / 8) + (8 + 8 * (k % 8) + j)) := by
    rw [LvalAt_eq]
    grind
  have hlt : (72 * (k / 8) + (8 + 8 * (k % 8) + j)).toNat < 2 ^ 63 := by
    rw [toNat_block_add k _ (by omega), hin]
    omega
  rw [hoff, PointerToIndex_add ad _ hlt, hdiv, hmod, if_neg hge]
  congr 1
  -- `(8 + 8 (k % 8) + j) / 8 - 1 = k % 8`
  apply UInt64.toNat_inj.mp
  have hk64 := k.toNat_lt
  simp only [UInt64.toNat_sub, UInt64.toNat_add, UInt64.toNat_mul, UInt64.toNat_div,
    UInt64.toNat_mod, UInt64.reduceToNat]
  omega

/-! ## 容量と大きさ -/

/-- 添字 `i < c` の値の語の終わりは、`16 + 9 c` を 16 に切り上げた大きさを超えない。
値の語の終わりは 8 の倍数で、`16 + 9 c` との差は 8 未満なので、8 に切り上げれば足りる。 -/
theorem valueOffset_add_le {c i : Nat} (hi : i < c) :
    16 + valueOffset i + 8 ≤ (16 + 9 * c + 15) / 16 * 16 := by
  unfold valueOffset
  omega

/-- 容量 `c` の配列の大きさ `capacityToSizeBytes c` に、添字 `i < c` の型のバイトが収まる。 -/
theorem type_add_le_capacityToSizeBytes (ad : UInt64) {c : Nat} (hc : c ≤ VanillaVec.uint32Max)
    {i : UInt64} (hi : i.toNat < c) :
    ((LvalAt ad i).type - ad).toNat + 1 ≤ VanillaVec.capacityToSizeBytes c := by
  have hc' : c ≤ 4294967295 := hc
  rw [toNat_type_sub ad i (by omega), VanillaVec.capacityToSizeBytes_eq hc]
  have := typeOffset_lt_valueOffset i.toNat
  have := valueOffset_add_le hi
  omega

/-- 容量 `c` の配列の大きさ `capacityToSizeBytes c` に、添字 `i < c` の値の語が収まる。 -/
theorem val_add_le_capacityToSizeBytes (ad : UInt64) {c : Nat} (hc : c ≤ VanillaVec.uint32Max)
    {i : UInt64} (hi : i.toNat < c) :
    ((LvalAt ad i).val - ad).toNat + 8 ≤ VanillaVec.capacityToSizeBytes c := by
  have hc' : c ≤ 4294967295 := hc
  rw [toNat_val_sub ad i (by omega), VanillaVec.capacityToSizeBytes_eq hc]
  have := valueOffset_add_le hi
  omega

/-- `b` バイトに容量 `c` の要素が収まるのは、ちょうど `c ≤ bytes2VanillaVecCapacity b` のとき。
最後の添字 `c - 1` の値の語が収まるかどうかで決まる。 -/
theorem entriesFit_iff (b c : Nat) :
    EntriesFit b c ↔ c ≤ VanillaVec.bytes2VanillaVecCapacity b := by
  rw [VanillaVec.bytes2VanillaVecCapacity_eq]
  constructor
  · intro h
    rcases Nat.eq_zero_or_pos c with rfl | hc
    · omega
    · have hlast := (h (c - 1) (by omega)).2
      unfold valueOffset at hlast
      omega
  · intro h i hi
    have := typeOffset_lt_valueOffset i
    have hv : valueOffset i + 8 ≤ b := by
      unfold valueOffset
      omega
    exact ⟨by omega, hv⟩

/-- `bytes2VanillaVecCapacity b` は `b` バイトに要素が収まる最大の容量。 -/
theorem isGreatest_bytes2VanillaVecCapacity (b : Nat) :
    IsGreatest {c | EntriesFit b c} (VanillaVec.bytes2VanillaVecCapacity b) :=
  ⟨(entriesFit_iff b _).mpr le_rfl, fun _ hc => (entriesFit_iff b _).mp hc⟩

/-! ## 配置の一致 -/

/-- `PackedBlock` の番地の三つの計算はどの添字でも同じ配置を指し、`PointerToIndex` はその
逆で、容量の計算はその配置がちょうど収まる大きさを出す。`PointerToIndex` の引数は配列の中を
指すので、差は `ptrdiff_t` に収まる（`72 (k / 8) + 72 ≤ 2^63`）。容量は `uint32_t`。 -/
theorem packedBlock_layout_consistent :
    (∀ ad k : UInt64, LvalAt ad k = (BlockAt ad (k / 8)).index (k &&& 7) ∧
        EntryOffset k = ⟨((LvalAt ad k).type - ad).toInt64, ((LvalAt ad k).val - ad).toInt64⟩) ∧
    (∀ ad k : UInt64, 72 * (k.toNat / 8) + 72 ≤ 2 ^ 63 →
        ((LvalAt ad k).type - ad).toNat = 16 + typeOffset k.toNat ∧
        ((LvalAt ad k).val - ad).toNat = 16 + valueOffset k.toNat ∧
        PointerToIndex ad (LvalAt ad k).type = k.toInt64 ∧
        ∀ j < 8, PointerToIndex ad ((LvalAt ad k).val + j) = k.toInt64) ∧
    (∀ (ad : UInt64) (c : Nat), c ≤ VanillaVec.uint32Max → ∀ i : UInt64, i.toNat < c →
        ((LvalAt ad i).type - ad).toNat + 1 ≤ VanillaVec.capacityToSizeBytes c ∧
        ((LvalAt ad i).val - ad).toNat + 8 ≤ VanillaVec.capacityToSizeBytes c) ∧
    (∀ b : Nat, IsGreatest {c | EntriesFit b c} (VanillaVec.bytes2VanillaVecCapacity b)) := by
  refine ⟨fun ad k => ⟨LvalAt_eq_index_BlockAt ad k, EntryOffset_eq_sub_LvalAt ad k⟩, ?_, ?_,
    isGreatest_bytes2VanillaVecCapacity⟩
  · intro ad k hk
    exact ⟨toNat_type_sub ad k (by omega), toNat_val_sub ad k (by omega),
      PointerToIndex_type ad k hk, PointerToIndex_val ad k hk⟩
  · intro ad c hc i hi
    exact ⟨type_add_le_capacityToSizeBytes ad hc hi, val_add_le_capacityToSizeBytes ad hc hi⟩

/-- 添字 9 の値の語の 4 バイト目は添字 9 に戻り、容量 10 の配列に収まる。 -/
theorem packedBlock_layout_consistent_nine :
    PointerToIndex 0 ((LvalAt 0 9).val + 3) = 9 ∧
      ((LvalAt 0 9).val - 0).toNat + 8 ≤ VanillaVec.capacityToSizeBytes 10 :=
  ⟨(packedBlock_layout_consistent.2.1 0 9 (by decide)).2.2.2 3 (by decide),
    (packedBlock_layout_consistent.2.2.1 0 10 (by decide) 9 (by decide)).2⟩

end Hhvm.PackedBlock
