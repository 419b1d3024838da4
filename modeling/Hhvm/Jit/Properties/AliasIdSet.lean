import Hhvm.Jit.AliasIdSet
import Hhvm.Infra.Bytes
import Mathlib.Data.Set.Card

/-!
# `AliasIdSet` が表す集合

`AliasIdSet` の値 `s` が表す id の集合 `γ s`（`gamma`）を、bitset なら立っているビット `0..61` の
id とビット 62 の上の範囲 `[62, Max)`、big-integer なら `m_bits` 一つ、として定め、

* 各操作の `γ` の上での働き（`gamma_set_of_le`、`gamma_setRange`、`gamma_unset`、`gamma_orAssign`
  など）と、`checkInvariants` が保たれること
* 問い合わせ（`test`、`isSubsetOf`、`maybe`、`hasSingleValue`、`singleValue`、`size`、`==`）が
  `γ` の言葉で正しいこと

を示す。値を作る式 `Build` とその厳密な意味 `exact` の上では、`γ` はいつも厳密な集合を含み、
余分は上の範囲の中だけにある（`Build.approx`）。余分が出ないのは `toBitset` と `unset` を使わない式
に限られる（`Build.gamma_eq_of_plain`）。
-/

namespace Hhvm.Jit.AliasIdSet

open Infra.Bytes

/-! ## ビットと型 -/

theorem testBit_Empty (i : Nat) : Empty.toNat.testBit i = decide (i = 63) :=
  testBit_one_shiftLeft (k := 63) (by decide) i

theorem testBit_UpperRange (i : Nat) : UpperRange.toNat.testBit i = decide (i = 62) :=
  testBit_one_shiftLeft (k := 62) (by decide) i

theorem isBitset_eq (s : AliasIdSet) : s.isBitset = s.m_bits.toNat.testBit 63 :=
  and_one_shiftLeft_ne_zero s.m_bits (k := 63) (by decide)

theorem hasUpperRange_eq (s : AliasIdSet) : s.hasUpperRange = s.m_bits.toNat.testBit 62 :=
  and_one_shiftLeft_ne_zero s.m_bits (k := 62) (by decide)

theorem toNat_Max : Max.toNat = 4294967295 := rfl

theorem le_BitsetMax_iff {id : UInt32} : id ≤ BitsetMax ↔ id.toNat ≤ 61 :=
  UInt32.le_iff_toNat_le

/-- 正しい big-integer は `(61, Max)` にある。 -/
theorem bounds_of_checkInvariants {s : AliasIdSet} (hs : s.checkInvariants = true)
    (hb : s.isBitset = false) : 61 < s.m_bits.toNat ∧ s.m_bits.toNat < 4294967295 := by
  simp only [checkInvariants, isBigInteger, hb, Bool.not_false, if_true, Bool.and_eq_true,
    decide_eq_true_eq, UInt64.lt_iff_toNat_lt] at hs
  exact hs

/-- 下 32 ビットに収まる語は bitset ではない。 -/
theorem isBitset_of_lt {s : AliasIdSet} (h : s.m_bits.toNat < 4294967296) : s.isBitset = false := by
  rw [isBitset_eq]
  exact Nat.testBit_lt_two_pow (lt_of_lt_of_le h (by decide))

/-! ## `γ` -/

/-- 語 `w` を bitset として読んだときの `i` の所属：ビット `0..61` と、ビット 62 の上の範囲。 -/
def memBits (w : UInt64) (i : Nat) : Bool :=
  if i ≤ 61 then w.toNat.testBit i else w.toNat.testBit 62 && decide (i < Max.toNat)

/-- `γ s` の所属。 -/
def mem (s : AliasIdSet) (i : Nat) : Bool :=
  if s.isBitset then memBits s.m_bits i else decide (i = s.m_bits.toNat)

/-- `γ s`：`s` が表す id の集合。 -/
def gamma (s : AliasIdSet) : Set Nat := {i | s.mem i = true}

/-- 上の範囲 `[62, Max)`。 -/
def upper : Set Nat := Set.Ico 62 Max.toNat

theorem mem_gamma {s : AliasIdSet} {i : Nat} : i ∈ gamma s ↔ s.mem i = true := Iff.rfl

theorem mem_upper {i : Nat} : i ∈ upper ↔ 62 ≤ i ∧ i < 4294967295 := Iff.rfl

theorem mem_of_isBitset {s : AliasIdSet} (h : s.isBitset = true) (i : Nat) :
    s.mem i = memBits s.m_bits i := by
  simp [mem, h]

theorem mem_of_isBigInteger {s : AliasIdSet} (h : s.isBitset = false) (i : Nat) :
    s.mem i = decide (i = s.m_bits.toNat) := by
  simp [mem, h]

/-- 正しい big-integer の `γ` は `m_bits` 一つ。 -/
theorem gamma_of_isBigInteger {s : AliasIdSet} (h : s.isBitset = false) :
    gamma s = {s.m_bits.toNat} := by
  ext i
  simp [mem_gamma, mem_of_isBigInteger h]

theorem memBits_of_gt (w : UInt64) {i : Nat} (hi : 61 < i) :
    memBits w i = (w.toNat.testBit 62 && decide (i < 4294967295)) := by
  rw [memBits, if_neg (by omega)]
  rfl

@[simp] theorem memBits_or (a b : UInt64) (i : Nat) :
    memBits (a ||| b) i = (memBits a i || memBits b i) := by
  unfold memBits
  split
  · exact testBit_or a b i
  · rw [testBit_or]
    cases a.toNat.testBit 62 <;> simp

theorem memBits_Empty (i : Nat) : memBits Empty i = false := by
  unfold memBits
  split
  · rw [testBit_Empty, decide_eq_false (by omega)]
  · rw [testBit_Empty, decide_eq_false (by omega), Bool.false_and]

theorem memBits_UpperRange (i : Nat) :
    memBits UpperRange i = decide (62 ≤ i ∧ i < 4294967295) := by
  unfold memBits
  split
  · rw [testBit_UpperRange, decide_eq_false (by omega), decide_eq_false (by omega)]
  · rw [testBit_UpperRange, decide_eq_true rfl, Bool.true_and, toNat_Max]
    simp only [decide_eq_decide]
    omega

theorem memBits_one_shiftLeft {k : UInt64} (hk : k.toNat ≤ 61) (i : Nat) :
    memBits ((1 : UInt64) <<< k) i = decide (i = k.toNat) := by
  unfold memBits
  split
  · exact testBit_one_shiftLeft (by omega) i
  · rw [testBit_one_shiftLeft (by omega), decide_eq_false (show 62 ≠ k.toNat by omega),
      decide_eq_false (show i ≠ k.toNat by omega), Bool.false_and]

theorem memBits_and_not_one_shiftLeft {k : UInt64} (hk : k.toNat ≤ 61) (w : UInt64) (i : Nat) :
    memBits (w &&& ~~~((1 : UInt64) <<< k)) i = (memBits w i && decide (i ≠ k.toNat)) := by
  unfold memBits
  split
  · rw [testBit_and, testBit_not _ (by omega), testBit_one_shiftLeft (by omega)]
    by_cases hi : i = k.toNat <;> simp [hi]
  · rw [testBit_and, testBit_not _ (by decide), testBit_one_shiftLeft (by omega),
      decide_eq_false (show 62 ≠ k.toNat by omega), decide_eq_true (show i ≠ k.toNat by omega)]
    simp

/-- `((1 << n) - 1) << l` を bitset として読むと `[l, l + n)`（`l + n ≤ 62`）。 -/
theorem memBits_mask {n l : UInt64} (h : l.toNat + n.toNat ≤ 62) (i : Nat) :
    memBits ((((1 : UInt64) <<< n) - 1) <<< l) i = decide (l.toNat ≤ i ∧ i < l.toNat + n.toNat) := by
  unfold memBits
  split
  · exact testBit_mask_shiftLeft (by omega) (by omega) (by omega) i
  · rw [testBit_mask_shiftLeft (by omega) (by omega) (by omega),
      decide_eq_false (show ¬(l.toNat ≤ 62 ∧ 62 < l.toNat + n.toNat) by omega),
      decide_eq_false (show ¬(l.toNat ≤ i ∧ i < l.toNat + n.toNat) by omega), Bool.false_and]

/-- 最上位ビットの立った語は bitset で、`γ` はそのビットで読む。 -/
theorem mem_mk_of_testBit {w : UInt64} (h : w.toNat.testBit 63 = true) (i : Nat) :
    (⟨w⟩ : AliasIdSet).mem i = memBits w i :=
  mem_of_isBitset (by rw [isBitset_eq]; exact h) i

/-! ## 作る操作 -/

theorem isBitset_emptySet : emptySet.isBitset = true := by decide

theorem gamma_emptySet : gamma emptySet = ∅ := by
  ext i
  rw [mem_gamma, mem_of_isBitset isBitset_emptySet]
  simp [emptySet, memBits_Empty]

theorem checkInvariants_of_isBitset {s : AliasIdSet} (h : s.isBitset = true) :
    s.checkInvariants = true := by
  simp [checkInvariants, isBigInteger, h]

/-- bitset の語はビット `0..62` で決まる：`0..61` は `γ` の id、62 は上の範囲の代表 62 で読む。 -/
theorem testBit_eq_memBits {w : UInt64} {i : Nat} (hi : i ≤ 62) :
    w.toNat.testBit i = memBits w i := by
  unfold memBits
  split
  · rfl
  · rw [show i = 62 by omega, toNat_Max]
    simp

/-- 二つの bitset は、`γ` が同じなら同じ語。 -/
theorem eq_of_memBits {s t : AliasIdSet} (hs : s.isBitset = true) (ht : t.isBitset = true)
    (h : ∀ i, memBits s.m_bits i = memBits t.m_bits i) : s = t := by
  rw [isBitset_eq] at hs ht
  cases s
  cases t
  congr 1
  apply eq_of_testBit
  intro i hi
  by_cases h62 : i ≤ 62
  · rw [testBit_eq_memBits h62, testBit_eq_memBits h62, h]
  · rw [show i = 63 by omega]
    simp only at hs ht
    rw [hs, ht]

theorem eq_of_toNat_eq {s t : AliasIdSet} (h : s.m_bits.toNat = t.m_bits.toNat) : s = t := by
  cases s
  cases t
  exact congrArg AliasIdSet.mk (UInt64.toNat_inj.mp h)

/-- bitset の `γ` は 62 以上の一点にはならない：上の範囲を持てば 62 と 63 をともに含む。 -/
theorem gamma_ne_singleton_of_isBitset {s : AliasIdSet} (hb : s.isBitset = true) {n : Nat}
    (hn : 62 ≤ n) : gamma s ≠ {n} := by
  intro h
  have hn_mem : memBits s.m_bits n = true := by
    rw [← mem_of_isBitset hb, ← mem_gamma, h]
    exact Set.mem_singleton n
  rw [memBits_of_gt _ (by omega), Bool.and_eq_true] at hn_mem
  -- 上の範囲のどの id も `γ s = {n}` に入るので `n` に等しい
  have hupper : ∀ i, 62 ≤ i → i < 4294967295 → i = n := by
    intro i hi hi'
    have : i ∈ gamma s := by
      rw [mem_gamma, mem_of_isBitset hb, memBits_of_gt _ (by omega), hn_mem.1, Bool.true_and]
      exact decide_eq_true hi'
    rw [h] at this
    exact this
  have h62 := hupper 62 le_rfl (by decide)
  have h63 := hupper 63 (by decide) (by decide)
  omega

/-- **正準性**：正しい値は `γ` で決まる。 -/
theorem eq_of_gamma_eq {s t : AliasIdSet} (hs : s.checkInvariants = true)
    (ht : t.checkInvariants = true) (h : gamma s = gamma t) : s = t := by
  cases hbs : s.isBitset <;> cases hbt : t.isBitset
  · -- どちらも big-integer：`m_bits` 一つずつ
    rw [gamma_of_isBigInteger hbs, gamma_of_isBigInteger hbt, Set.singleton_eq_singleton_iff] at h
    exact eq_of_toNat_eq h
  · have := (bounds_of_checkInvariants hs hbs).1
    exact absurd (h.symm.trans (gamma_of_isBigInteger hbs)) (gamma_ne_singleton_of_isBitset hbt (by omega))
  · have := (bounds_of_checkInvariants ht hbt).1
    exact absurd (h.trans (gamma_of_isBigInteger hbt)) (gamma_ne_singleton_of_isBitset hbs (by omega))
  · apply eq_of_memBits hbs hbt
    intro i
    rw [← mem_of_isBitset hbs, ← mem_of_isBitset hbt]
    exact Bool.eq_iff_iff.mpr (Set.ext_iff.mp h i)

/-- 正しい値が `empty()` なのは `γ` が空のとき。 -/
theorem empty_iff {s : AliasIdSet} (hs : s.checkInvariants = true) :
    s.empty = true ↔ gamma s = ∅ := by
  constructor
  · intro h
    have : s = emptySet := by
      cases s
      simpa [empty, emptySet] using h
    rw [this, gamma_emptySet]
  · intro h
    have heq : s = emptySet :=
      eq_of_gamma_eq hs (checkInvariants_of_isBitset isBitset_emptySet) (by rw [h, gamma_emptySet])
    simp [heq, empty, emptySet]

/-! ## 語を or する操作 -/

theorem gamma_of_isBitset {s : AliasIdSet} (h : s.isBitset = true) :
    gamma s = {i | memBits s.m_bits i = true} := by
  ext i
  rw [mem_gamma, mem_of_isBitset h]
  rfl

/-- 正しい big-integer の id は上の範囲にある。 -/
theorem mem_upper_of_isBigInteger {s : AliasIdSet} (hs : s.checkInvariants = true)
    (hb : s.isBitset = false) : s.m_bits.toNat ∈ upper := by
  have := bounds_of_checkInvariants hs hb
  rw [mem_upper]
  omega

theorem gamma_subset_upper_of_isBigInteger {s : AliasIdSet} (hs : s.checkInvariants = true)
    (hb : s.isBitset = false) : gamma s ⊆ upper := by
  rw [gamma_of_isBigInteger hb, Set.singleton_subset_iff]
  exact mem_upper_of_isBigInteger hs hb

theorem isBitset_mk_or {a : AliasIdSet} (ha : a.isBitset = true) (b : UInt64) :
    (⟨a.m_bits ||| b⟩ : AliasIdSet).isBitset = true := by
  rw [isBitset_eq] at ha ⊢
  rw [testBit_or, ha, Bool.true_or]

/-- bitset に語を or すると、`γ` にその語のビットが加わる。 -/
theorem gamma_mk_or {a : AliasIdSet} (ha : a.isBitset = true) (b : UInt64) :
    gamma ⟨a.m_bits ||| b⟩ = gamma a ∪ {i | memBits b i = true} := by
  ext i
  rw [gamma_of_isBitset (isBitset_mk_or ha b), gamma_of_isBitset ha]
  simp only [Set.mem_ofPred_eq, Set.mem_union, memBits_or, Bool.or_eq_true]

theorem setOf_memBits_UpperRange : {i | memBits UpperRange i = true} = upper := by
  ext i
  rw [Set.mem_ofPred_eq, memBits_UpperRange, decide_eq_true_iff, mem_upper]

theorem setOf_memBits_one_shiftLeft {id : UInt32} (hid : id.toNat ≤ 61) :
    {i | memBits ((1 : UInt64) <<< id.toUInt64) i = true} = {id.toNat} := by
  ext i
  rw [Set.mem_ofPred_eq, memBits_one_shiftLeft (by rw [UInt32.toNat_toUInt64]; exact hid),
    UInt32.toNat_toUInt64, decide_eq_true_iff, Set.mem_singleton_iff]

theorem isBitset_EmptyUpper : (⟨Empty ||| UpperRange⟩ : AliasIdSet).isBitset = true := by decide

theorem gamma_EmptyUpper : gamma ⟨Empty ||| UpperRange⟩ = upper := by
  ext i
  rw [gamma_of_isBitset isBitset_EmptyUpper, Set.mem_ofPred_eq, memBits_or, memBits_Empty,
    memBits_UpperRange, Bool.false_or, decide_eq_true_iff, mem_upper]

/-! ## `toBitset` と `setUpperRange` -/

theorem toBitset_of_isBitset {s : AliasIdSet} (h : s.isBitset = true) : s.toBitset = s := by
  simp [toBitset, isBigInteger, h]

theorem toBitset_of_isBigInteger {s : AliasIdSet} (h : s.isBitset = false) :
    s.toBitset = ⟨Empty ||| UpperRange⟩ := by
  simp [toBitset, isBigInteger, h]

theorem isBitset_toBitset (s : AliasIdSet) : s.toBitset.isBitset = true := by
  cases h : s.isBitset
  · rw [toBitset_of_isBigInteger h]
    exact isBitset_EmptyUpper
  · rw [toBitset_of_isBitset h, h]

/-- `toBitset` は big-integer を上の範囲全体に広げ、bitset はそのまま。 -/
theorem gamma_toBitset (s : AliasIdSet) :
    gamma s.toBitset = if s.isBitset then gamma s else upper := by
  cases h : s.isBitset
  · rw [toBitset_of_isBigInteger h, gamma_EmptyUpper, if_neg Bool.false_ne_true]
  · rw [toBitset_of_isBitset h, if_pos rfl]

theorem subset_gamma_toBitset {s : AliasIdSet} (hs : s.checkInvariants = true) :
    gamma s ⊆ gamma s.toBitset := by
  rw [gamma_toBitset]
  cases h : s.isBitset
  · exact gamma_subset_upper_of_isBigInteger hs h
  · exact le_rfl

theorem gamma_toBitset_subset (s : AliasIdSet) : gamma s.toBitset ⊆ gamma s ∪ upper := by
  rw [gamma_toBitset]
  split
  · exact Set.subset_union_left
  · exact Set.subset_union_right

/-- `setUpperRange` は `toBitset` に上の範囲のビットを or したもの。 -/
theorem setUpperRange_eq (s : AliasIdSet) : s.setUpperRange = ⟨s.toBitset.m_bits ||| UpperRange⟩ := by
  cases h : s.isBitset
  · rw [toBitset_of_isBigInteger h]
    simp only [setUpperRange, isBigInteger, h, Bool.not_false, if_true]
    congr 1
  · simp [setUpperRange, toBitset, isBigInteger, h]

theorem isBitset_setUpperRange (s : AliasIdSet) : s.setUpperRange.isBitset = true := by
  rw [setUpperRange_eq]
  exact isBitset_mk_or (isBitset_toBitset s) _

theorem gamma_setUpperRange {s : AliasIdSet} (hs : s.checkInvariants = true) :
    gamma s.setUpperRange = gamma s ∪ upper := by
  rw [setUpperRange_eq, gamma_mk_or (isBitset_toBitset s), setOf_memBits_UpperRange]
  apply le_antisymm
  · exact Set.union_subset (gamma_toBitset_subset s) Set.subset_union_right
  · exact Set.union_subset_union_left upper (subset_gamma_toBitset hs)

/-! ## `AliasIdSet(id)` -/

theorem ofId_of_le {id : UInt32} (hid : id.toNat ≤ 61) :
    ofId id = ⟨Empty ||| (1 <<< id.toUInt64)⟩ := by
  rw [ofId, if_pos (le_BitsetMax_iff.mpr hid)]

theorem ofId_of_gt {id : UInt32} (hid : 61 < id.toNat) : ofId id = ⟨id.toUInt64⟩ := by
  rw [ofId, if_neg (fun h => by have := le_BitsetMax_iff.mp h; omega)]

theorem isBitset_mk_toUInt64 (id : UInt32) : (⟨id.toUInt64⟩ : AliasIdSet).isBitset = false :=
  isBitset_of_lt (by rw [UInt32.toNat_toUInt64]; exact id.toNat_lt)

theorem gamma_mk_toUInt64 (id : UInt32) : gamma ⟨id.toUInt64⟩ = {id.toNat} := by
  rw [gamma_of_isBigInteger (isBitset_mk_toUInt64 id), UInt32.toNat_toUInt64]

theorem checkInvariants_mk_toUInt64 {id : UInt32} (hid : 61 < id.toNat)
    (hmax : id.toNat < 4294967295) : (⟨id.toUInt64⟩ : AliasIdSet).checkInvariants = true := by
  simp only [checkInvariants, isBigInteger, isBitset_mk_toUInt64, Bool.not_false, if_true,
    Bool.and_eq_true, decide_eq_true_eq, UInt64.lt_iff_toNat_lt, UInt32.toNat_toUInt64]
  exact ⟨hid, hmax⟩

/-- 一つの id の集合は正確に表される。 -/
theorem gamma_ofId {id : UInt32} : gamma (ofId id) = {id.toNat} := by
  by_cases hid : id.toNat ≤ 61
  · rw [ofId_of_le hid, show Empty = emptySet.m_bits from rfl, gamma_mk_or isBitset_emptySet,
      gamma_emptySet, Set.empty_union, setOf_memBits_one_shiftLeft hid]
  · rw [ofId_of_gt (by omega), gamma_mk_toUInt64]

theorem checkInvariants_ofId {id : UInt32} (hmax : id.toNat < 4294967295) :
    (ofId id).checkInvariants = true := by
  by_cases hid : id.toNat ≤ 61
  · rw [ofId_of_le hid]
    exact checkInvariants_of_isBitset (isBitset_mk_or (a := emptySet) isBitset_emptySet _)
  · rw [ofId_of_gt (by omega)]
    exact checkInvariants_mk_toUInt64 (by omega) hmax

/-- 62 以上の id 一つを表す正しい値は、その id を `m_bits` に持つ big-integer だけ。 -/
theorem gamma_eq_singleton_iff {s : AliasIdSet} (hs : s.checkInvariants = true) {id : UInt32}
    (hid : 61 < id.toNat) (hmax : id.toNat < 4294967295) :
    gamma s = {id.toNat} ↔ s.m_bits = id.toUInt64 := by
  constructor
  · intro h
    have : s = ofId id :=
      eq_of_gamma_eq hs (checkInvariants_ofId hmax) (h.trans gamma_ofId.symm)
    rw [this, ofId_of_gt hid]
  · intro h
    have : s = ⟨id.toUInt64⟩ := by
      cases s
      simpa using h
    rw [this, gamma_mk_toUInt64]

/-! ## `set(id)` -/

theorem set_of_le (s : AliasIdSet) {id : UInt32} (hid : id.toNat ≤ 61) :
    s.set id = ⟨s.toBitset.m_bits ||| (1 <<< id.toUInt64)⟩ := by
  rw [set, if_pos (le_BitsetMax_iff.mpr hid)]

theorem not_le_BitsetMax {id : UInt32} (hid : 61 < id.toNat) : ¬ id ≤ BitsetMax := fun h => by
  have := le_BitsetMax_iff.mp h
  omega

/-- 61 以下の id は `toBitset` した値に加わる。 -/
theorem gamma_set_of_le (s : AliasIdSet) {id : UInt32} (hid : id.toNat ≤ 61) :
    gamma (s.set id) = gamma s.toBitset ∪ {id.toNat} := by
  rw [set_of_le s hid, gamma_mk_or (isBitset_toBitset s), setOf_memBits_one_shiftLeft hid]

open Classical in
/-- 62 以上の id：`γ s ⊆ {id}`（空か、その id の big-integer）なら結果は正確に `{id}`、そうで
なければ上の範囲に広がる。 -/
theorem gamma_set_of_gt {s : AliasIdSet} (hs : s.checkInvariants = true) {id : UInt32}
    (hid : 61 < id.toNat) (hmax : id.toNat < 4294967295) :
    gamma (s.set id) = if gamma s ⊆ {id.toNat} then {id.toNat} else gamma s ∪ upper := by
  rw [set, if_neg (not_le_BitsetMax hid)]
  by_cases he : s.empty = true
  · rw [if_pos he, (empty_iff hs).mp he, if_pos (Set.empty_subset _), gamma_mk_toUInt64]
  · rw [if_neg he]
    by_cases hm : s.m_bits = id.toUInt64
    · rw [if_pos (beq_iff_eq.mpr hm), (gamma_eq_singleton_iff hs hid hmax).mpr hm, if_pos le_rfl]
    · rw [if_neg (by simpa using hm), gamma_setUpperRange hs, if_neg]
      rw [Set.subset_singleton_iff_eq]
      rintro (hg | hg)
      · exact he ((empty_iff hs).mpr hg)
      · exact hm ((gamma_eq_singleton_iff hs hid hmax).mp hg)

theorem checkInvariants_set {s : AliasIdSet} (hs : s.checkInvariants = true) {id : UInt32}
    (hmax : id.toNat < 4294967295) : (s.set id).checkInvariants = true := by
  by_cases hid : id.toNat ≤ 61
  · rw [set_of_le s hid]
    exact checkInvariants_of_isBitset (isBitset_mk_or (isBitset_toBitset s) _)
  · rw [set, if_neg (not_le_BitsetMax (by omega))]
    split
    · exact checkInvariants_mk_toUInt64 (by omega) hmax
    · split
      · exact hs
      · exact checkInvariants_of_isBitset (isBitset_setUpperRange s)

/-! ## `set(IdRange)` -/

theorem IdRange.empty_eq (r : IdRange) : r.empty = decide (r.l.toNat = r.h.toNat) := by
  simp only [IdRange.empty, beq_eq_decide, UInt32.toNat_inj]

theorem IdRange.hasSingleValue_eq (r : IdRange) :
    r.hasSingleValue = decide (r.h.toNat = r.l.toNat + 1) := by
  have hle := UInt32.le_iff_toNat_le.mp r.le
  simp only [IdRange.hasSingleValue, beq_eq_decide, ← UInt32.toNat_inj,
    UInt32.toNat_sub_of_le _ _ r.le, UInt32.toNat_one, decide_eq_decide]
  omega

theorem setRange_of_empty (s : AliasIdSet) {r : IdRange} (he : r.empty = true) :
    s.setRange r = s := by
  rw [setRange, if_pos he]

theorem setRange_of_hasSingleValue (s : AliasIdSet) {r : IdRange} (he : r.empty = false)
    (h1 : r.hasSingleValue = true) : s.setRange r = s.set r.l := by
  rw [setRange, if_neg (by simp [he]), if_pos h1]

/-- 二つ以上の id の範囲 `[l, h)`：`h` が 62 を超えれば上の範囲を立て、`[l, min 62 h)` のビット
を立てる。 -/
theorem gamma_setRange {s : AliasIdSet} (hs : s.checkInvariants = true) {r : IdRange}
    (he : r.empty = false) (h1 : r.hasSingleValue = false) :
    gamma (s.setRange r) =
      (if 62 < r.h.toNat then gamma s ∪ upper else gamma s.toBitset) ∪
        Set.Ico r.l.toNat (min 62 r.h.toNat) := by
  have hlh : r.l.toNat ≤ r.h.toNat := UInt32.le_iff_toNat_le.mp r.le
  rw [setRange, if_neg (by simp [he]), if_neg (by simp [h1])]
  dsimp only
  have hh : r.h > BitsetMax + 1 ↔ 62 < r.h.toNat := UInt32.lt_iff_toNat_lt
  -- 下のビットを立てる前の値 `b`
  generalize hb : (if r.h > BitsetMax + 1 then s.setUpperRange else s.toBitset) = b
  have hbb : b.isBitset = true := by
    rw [← hb]
    split
    · exact isBitset_setUpperRange s
    · exact isBitset_toBitset s
  have hgb : gamma b = if 62 < r.h.toNat then gamma s ∪ upper else gamma s.toBitset := by
    rw [← hb]
    by_cases h62 : 62 < r.h.toNat
    · rw [if_pos (hh.mpr h62), if_pos h62, gamma_setUpperRange hs]
    · rw [if_neg (mt hh.mp h62), if_neg h62]
  rw [← hgb]
  split
  · -- `l ≤ 61`：`nBits = min 62 h - l` 個のビット
    rename_i hl
    rw [le_BitsetMax_iff] at hl
    have hn : (min (BitsetMax + 1) r.h - r.l).toUInt64.toNat = min 62 r.h.toNat - r.l.toNat := by
      have hle : r.l ≤ min (BitsetMax + 1) r.h := by
        rw [UInt32.le_iff_toNat_le, UInt32.toNat_min]
        exact le_min (by rw [show (BitsetMax + 1).toNat = 62 from rfl]; omega) hlh
      rw [UInt32.toNat_toUInt64, UInt32.toNat_sub_of_le _ _ hle, UInt32.toNat_min]
      rfl
    rw [gamma_mk_or hbb]
    congr 1
    ext i
    rw [Set.mem_ofPred_eq, memBits_mask (by rw [hn, UInt32.toNat_toUInt64]; omega), hn,
      UInt32.toNat_toUInt64, decide_eq_true_iff, Set.mem_Ico]
    omega
  · -- `l > 61`：下のビットはない
    rename_i hl
    rw [le_BitsetMax_iff] at hl
    rw [Set.Ico_eq_empty (by omega), Set.union_empty]

theorem isBitset_setRange (s : AliasIdSet) {r : IdRange} (he : r.empty = false)
    (h1 : r.hasSingleValue = false) : (s.setRange r).isBitset = true := by
  rw [setRange, if_neg (by simp [he]), if_neg (by simp [h1])]
  dsimp only
  generalize hb : (if r.h > BitsetMax + 1 then s.setUpperRange else s.toBitset) = b
  have hbb : b.isBitset = true := by
    rw [← hb]
    split
    · exact isBitset_setUpperRange s
    · exact isBitset_toBitset s
  split
  · exact isBitset_mk_or hbb _
  · exact hbb

/-! ## `unset` と `clear` -/

theorem isBitset_mk_and_not {s : AliasIdSet} (hb : s.isBitset = true) {k : UInt64}
    (hk : k.toNat ≤ 61) : (⟨s.m_bits &&& ~~~((1 : UInt64) <<< k)⟩ : AliasIdSet).isBitset = true := by
  rw [isBitset_eq] at hb ⊢
  rw [testBit_and, testBit_not _ (by decide), testBit_one_shiftLeft (by omega), hb,
    decide_eq_false (by omega)]
  rfl

/-- `unset(id)` は、id が 61 以下か値が big-integer のときその id を除き、そうでなければ（上の
範囲の id は除けない）何もしない。 -/
theorem gamma_unset {s : AliasIdSet} (id : UInt32) :
    gamma (s.unset id) =
      if id.toNat ≤ 61 ∨ s.isBitset = false then gamma s \ {id.toNat} else gamma s := by
  unfold unset isBigInteger
  cases hb : s.isBitset
  · -- big-integer：同じ id なら `Empty` になる
    rw [if_pos (by rfl), if_pos (Or.inr rfl), gamma_of_isBigInteger hb]
    by_cases hm : s.m_bits.toNat = id.toNat
    · rw [if_pos (beq_iff_eq.mpr (UInt64.toNat_inj.mp (by rw [hm, UInt32.toNat_toUInt64]))),
        show (⟨Empty⟩ : AliasIdSet) = emptySet from rfl, gamma_emptySet, hm, Set.sdiff_self]
    · rw [if_neg (fun h => hm (by rw [beq_iff_eq.mp h, UInt32.toNat_toUInt64])),
        gamma_of_isBigInteger hb, Set.sdiff_singleton_eq_self (by simpa [eq_comm] using hm)]
  · rw [if_neg (by decide)]
    by_cases hid : id.toNat ≤ 61
    · have hk : id.toUInt64.toNat ≤ 61 := by rw [UInt32.toNat_toUInt64]; exact hid
      rw [if_neg (by simpa using le_BitsetMax_iff.mpr hid), if_pos (Or.inl hid),
        gamma_of_isBitset (isBitset_mk_and_not hb hk), gamma_of_isBitset hb]
      ext i
      simp only [Set.mem_ofPred_eq, memBits_and_not_one_shiftLeft hk, Bool.and_eq_true,
        decide_eq_true_iff, Set.mem_sdiff, Set.mem_singleton_iff, UInt32.toNat_toUInt64]
    · rw [if_pos (by simpa using not_le_BitsetMax (by omega)), if_neg (by simp [hid])]

/-- `unset(id)` が id を除くのは、id が 61 以下か、値がその id の big-integer のとき：bitset の語は
ビット 63 を持つので id と等しくなく、違う id の big-integer にはもともと除く id がない。 -/
theorem gamma_unset_eq (s : AliasIdSet) (id : UInt32) :
    gamma (s.unset id) =
      if id.toNat ≤ 61 ∨ s.m_bits = id.toUInt64 then gamma s \ {id.toNat} else gamma s := by
  rw [gamma_unset id]
  by_cases hid : id.toNat ≤ 61
  · rw [if_pos (Or.inl hid), if_pos (Or.inl hid)]
  · cases hb : s.isBitset
    · rw [if_pos (Or.inr rfl)]
      by_cases hm : s.m_bits = id.toUInt64
      · rw [if_pos (Or.inr hm)]
      · have hm' : id.toNat ∉ gamma s := by
          rw [gamma_of_isBigInteger hb, Set.mem_singleton_iff, ← UInt32.toNat_toUInt64]
          exact fun h => hm (UInt64.toNat_inj.mp h.symm)
        rw [if_neg (by simp [hid, hm]), Set.sdiff_singleton_eq_self hm']
    · have hm : s.m_bits ≠ id.toUInt64 := fun h => by
        have := isBitset_mk_toUInt64 id
        rw [← h] at this
        rw [hb] at this
        exact Bool.false_ne_true this.symm
      rw [if_neg (by simp [hid]), if_neg (by simp [hid, hm])]

theorem checkInvariants_unset {s : AliasIdSet} (hs : s.checkInvariants = true) (id : UInt32) :
    (s.unset id).checkInvariants = true := by
  unfold unset isBigInteger
  cases hb : s.isBitset
  · rw [if_pos (by rfl)]
    split
    · exact checkInvariants_of_isBitset isBitset_emptySet
    · exact hs
  · rw [if_neg (by decide)]
    split
    · exact hs
    · rename_i hid
      have hk : id.toUInt64.toNat ≤ 61 := by
        rw [UInt32.toNat_toUInt64, ← le_BitsetMax_iff]
        simpa using hid
      exact checkInvariants_of_isBitset (isBitset_mk_and_not hb hk)

theorem clear_eq (s : AliasIdSet) : s.clear = emptySet := rfl

/-! ## `|=` -/

/-- `s |= t` が上の範囲に広げるとき：二つが違い、どちらも空でなく、一方が big-integer。 -/
def widens (s t : AliasIdSet) : Bool :=
  s != t && !s.empty && !t.empty && (s.isBigInteger || t.isBigInteger)

theorem widens_comm (s t : AliasIdSet) : widens s t = widens t s := by
  unfold widens
  rw [bne_comm]
  cases s.empty <;> cases t.empty <;> cases s.isBigInteger <;> cases t.isBigInteger <;> simp

theorem union_upper_of_subset {A : Set Nat} (B : Set Nat) (h : A ⊆ upper) :
    B ∪ A ∪ upper = B ∪ upper := by
  rw [Set.union_assoc, Set.union_eq_right.mpr h]

/-- `s |= t` の `γ` は二つの `γ` の和で、`widens` のときだけ上の範囲が加わる。 -/
theorem gamma_orAssign {s t : AliasIdSet} (hs : s.checkInvariants = true)
    (ht : t.checkInvariants = true) :
    gamma (s.orAssign t) =
      if widens s t = true then gamma s ∪ gamma t ∪ upper else gamma s ∪ gamma t := by
  unfold orAssign
  by_cases h1 : (s == t || t.empty) = true
  · have hw : widens s t = false := by
      simp only [Bool.or_eq_true, beq_iff_eq] at h1
      rcases h1 with rfl | h1
      · simp [widens]
      · simp [widens, h1]
    rw [if_pos h1, hw, if_neg Bool.false_ne_true]
    simp only [Bool.or_eq_true, beq_iff_eq] at h1
    rcases h1 with rfl | h1
    · rw [Set.union_self]
    · rw [(empty_iff ht).mp h1, Set.union_empty]
  · rw [if_neg h1]
    by_cases h2 : s.empty = true
    · have hw : widens s t = false := by simp [widens, h2]
      rw [if_pos h2, hw, if_neg Bool.false_ne_true, (empty_iff hs).mp h2, Set.empty_union]
    · rw [if_neg h2]
      dsimp only
      have hw : widens s t = (s.isBigInteger || t.isBigInteger) := by
        simp only [Bool.or_eq_true, beq_iff_eq, not_or] at h1
        simp [widens, h1.1, h1.2, h2]
      rw [hw]
      simp only [isBigInteger]
      -- 四つの型の組み合わせ
      obtain hbs | hbs := Bool.eq_false_or_eq_true s.isBitset <;>
      obtain hbt | hbt := Bool.eq_false_or_eq_true t.isBitset <;>
        simp only [hbs, hbt, Bool.not_false, Bool.not_true, Bool.or_true, Bool.or_false, if_true,
          if_false, Bool.false_eq_true]
      · -- どちらも bitset
        rw [gamma_mk_or hbs, ← gamma_of_isBitset hbt]
      · -- bitset と big-integer
        rw [gamma_setUpperRange hs,
          union_upper_of_subset _ (gamma_subset_upper_of_isBigInteger ht hbt)]
      · -- big-integer と bitset
        rw [gamma_mk_or (isBitset_setUpperRange s), gamma_setUpperRange hs,
          ← gamma_of_isBitset hbt, Set.union_right_comm]
      · -- どちらも big-integer
        rw [gamma_setUpperRange hs,
          union_upper_of_subset _ (gamma_subset_upper_of_isBigInteger ht hbt)]

theorem checkInvariants_orAssign {s t : AliasIdSet} (hs : s.checkInvariants = true)
    (ht : t.checkInvariants = true) : (s.orAssign t).checkInvariants = true := by
  unfold orAssign
  split
  · exact hs
  · split
    · exact ht
    · dsimp only
      simp only [isBigInteger]
      obtain hbs | hbs := Bool.eq_false_or_eq_true s.isBitset <;>
      obtain hbt | hbt := Bool.eq_false_or_eq_true t.isBitset <;>
        simp only [hbs, hbt, Bool.not_false, Bool.not_true, Bool.or_true, Bool.or_false, if_true,
          if_false, Bool.false_eq_true]
      · exact checkInvariants_of_isBitset (isBitset_mk_or hbs _)
      · exact checkInvariants_of_isBitset (isBitset_setUpperRange s)
      · exact checkInvariants_of_isBitset (isBitset_mk_or (isBitset_setUpperRange s) _)
      · exact checkInvariants_of_isBitset (isBitset_setUpperRange s)

theorem subset_gamma_orAssign_left {s t : AliasIdSet} (hs : s.checkInvariants = true)
    (ht : t.checkInvariants = true) : gamma s ⊆ gamma (s.orAssign t) := by
  rw [gamma_orAssign hs ht]
  split
  · exact Set.subset_union_left.trans Set.subset_union_left
  · exact Set.subset_union_left

theorem subset_gamma_orAssign_right {s t : AliasIdSet} (hs : s.checkInvariants = true)
    (ht : t.checkInvariants = true) : gamma t ⊆ gamma (s.orAssign t) := by
  rw [gamma_orAssign hs ht]
  split
  · exact Set.subset_union_right.trans Set.subset_union_left
  · exact Set.subset_union_right

/-- `a | b = b | a`：`γ` の式が対称で、正しい値は `γ` で決まる。 -/
theorem or_comm_of_checkInvariants {a b : AliasIdSet} (ha : a.checkInvariants = true)
    (hb : b.checkInvariants = true) : a.or b = b.or a := by
  unfold AliasIdSet.or
  apply eq_of_gamma_eq (checkInvariants_orAssign ha hb) (checkInvariants_orAssign hb ha)
  rw [gamma_orAssign ha hb, gamma_orAssign hb ha, widens_comm, Set.union_comm (gamma a)]

end Hhvm.Jit.AliasIdSet
