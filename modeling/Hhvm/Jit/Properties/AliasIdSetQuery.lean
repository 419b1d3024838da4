import Hhvm.Jit.Properties.AliasIdSet

/-!
# `AliasIdSet` の問い合わせ

正しい値（`checkInvariants`）の上で、問い合わせの関数はどれも `γ` の言葉で正しい。

* `test_eq` — `test(id)` は `id ∈ γ s`（`id < Max`）
* `isSubsetOf_iff` — `s <= t` は `γ s ⊆ γ t`
* `maybe_iff` — `s.maybe(t)` は `γ s ∩ γ t` が空でないこと
* `hasSingleValue_iff`、`gamma_singleValue` — `γ s` が一点であることと、その点
* `size_eq_ncard` — 上の範囲がなければ `size()` は `γ s` の要素の個数

bit の手口（`r & (r - 1)`、`m_bits & (m_bits - 1) == Empty`、`ffs64`）は、どれも語の一番下の
立っているビット（`exists_lowest_testBit`）を落とす式として読む。
-/

namespace Hhvm.Jit.AliasIdSet

open Infra.Bytes

/-! ## 上の範囲のビット -/

/-- big-integer は下 32 ビットにあるので、上の範囲のビットは立たない。 -/
theorem hasUpperRange_of_isBigInteger {s : AliasIdSet} (hs : s.checkInvariants = true)
    (hb : s.isBitset = false) : s.hasUpperRange = false := by
  have := (bounds_of_checkInvariants hs hb).2
  rw [hasUpperRange_eq]
  exact Nat.testBit_lt_two_pow (lt_trans this (by decide))

/-- bitset の上の範囲のビットは、上の範囲のどの id の所属とも同じ。 -/
theorem hasUpperRange_eq_mem {s : AliasIdSet} (hb : s.isBitset = true) {i : Nat}
    (h61 : 61 < i) (hi : i < 4294967295) : s.hasUpperRange = s.mem i := by
  rw [hasUpperRange_eq, mem_of_isBitset hb, memBits_of_gt _ h61, decide_eq_true hi, Bool.and_true]

/-- 上の範囲を持つ値の `γ` は一点ではない：62 と 63 をともに含む。 -/
theorem gamma_ne_singleton_of_hasUpperRange {s : AliasIdSet} (hb : s.isBitset = true)
    (hu : s.hasUpperRange = true) (x : Nat) : gamma s ≠ {x} := by
  intro h
  have h62 : 62 ∈ gamma s := by
    rw [mem_gamma, ← hasUpperRange_eq_mem hb (by decide) (by decide), hu]
  have h63 : 63 ∈ gamma s := by
    rw [mem_gamma, ← hasUpperRange_eq_mem hb (by decide) (by decide), hu]
  rw [h, Set.mem_singleton_iff] at h62 h63
  omega

/-- 上の範囲のない bitset の `γ` はビット `0..61` だけで読む。 -/
theorem gamma_of_not_hasUpperRange {s : AliasIdSet} (hb : s.isBitset = true)
    (hu : s.hasUpperRange = false) :
    gamma s = {i | i ≤ 61 ∧ s.m_bits.toNat.testBit i = true} := by
  rw [hasUpperRange_eq] at hu
  ext i
  rw [mem_gamma, mem_of_isBitset hb, Set.mem_ofPred_eq]
  by_cases hi : i ≤ 61
  · rw [← testBit_eq_memBits (by omega)]
    exact ⟨fun h => ⟨hi, h⟩, fun h => h.2⟩
  · rw [memBits_of_gt _ (by omega), hu, Bool.false_and]
    exact ⟨fun h => absurd h Bool.false_ne_true, fun h => absurd h.1 hi⟩

/-! ## `test` -/

/-- `test(id)` は `id ∈ γ s`。`id = Max` は上の範囲の外なので除く。 -/
theorem test_eq (s : AliasIdSet) {id : UInt32} (hmax : id.toNat < 4294967295) :
    s.test id = s.mem id.toNat := by
  unfold test
  cases hb : s.isBitset
  · -- big-integer：`m_bits == id`
    rw [if_neg Bool.false_ne_true, mem_of_isBigInteger hb]
    simp only [beq_eq_decide, ← UInt64.toNat_inj, UInt32.toNat_toUInt64]
    exact decide_eq_decide.mpr eq_comm
  · rw [if_pos rfl]
    split
    · rename_i hid
      rw [le_BitsetMax_iff] at hid
      rw [and_one_shiftLeft_ne_zero _ (by rw [UInt32.toNat_toUInt64]; omega),
        UInt32.toNat_toUInt64, mem_of_isBitset hb, testBit_eq_memBits (by omega)]
    · rename_i hid
      rw [le_BitsetMax_iff] at hid
      exact hasUpperRange_eq_mem hb (by omega) hmax

/-! ## `isSubsetOf` -/

/-- bitset どうしの `γ` の包含は、ビット `0..62` の包含。 -/
theorem setOf_memBits_subset_iff {a b : UInt64} :
    {i | memBits a i = true} ⊆ {i | memBits b i = true} ↔
      ∀ i ≤ 62, a.toNat.testBit i = true → b.toNat.testBit i = true := by
  constructor
  · intro h i hi ha
    rw [testBit_eq_memBits hi] at ha ⊢
    exact h ha
  · intro h i hi
    rw [Set.mem_ofPred_eq] at hi ⊢
    by_cases h61 : i ≤ 61
    · rw [← testBit_eq_memBits (by omega)] at hi ⊢
      exact h i (by omega) hi
    · rw [memBits_of_gt _ (by omega), Bool.and_eq_true] at hi ⊢
      exact ⟨h 62 le_rfl hi.1, hi.2⟩

/-- 二つの bitset について `!(m_bits & ~rhs.m_bits)` は `γ` の包含：ビット 63 はどちらにも立つ。 -/
theorem not_and_not_ne_zero_iff {s t : AliasIdSet} (hbs : s.isBitset = true)
    (hbt : t.isBitset = true) :
    (!(s.m_bits &&& ~~~t.m_bits != 0)) = true ↔ gamma s ⊆ gamma t := by
  rw [gamma_of_isBitset hbs, gamma_of_isBitset hbt, setOf_memBits_subset_iff, Bool.not_eq_true',
    bne_eq_false_iff_eq, and_not_eq_zero_iff]
  rw [isBitset_eq] at hbt
  constructor
  · intro h i hi
    exact h i (by omega)
  · intro h i hi ha
    by_cases h63 : i = 63
    · rw [h63]
      exact hbt
    · exact h i (by omega) ha

/-- `s <= t` は `γ s ⊆ γ t`。 -/
theorem isSubsetOf_iff {s t : AliasIdSet} (hs : s.checkInvariants = true)
    (ht : t.checkInvariants = true) : s.isSubsetOf t = true ↔ gamma s ⊆ gamma t := by
  unfold isSubsetOf
  by_cases h1 : (s == t || s.empty) = true
  · rw [if_pos h1]
    simp only [Bool.or_eq_true, beq_iff_eq] at h1
    rcases h1 with rfl | he
    · exact iff_of_true rfl le_rfl
    · exact iff_of_true rfl (by rw [(empty_iff hs).mp he]; exact Set.empty_subset _)
  · rw [if_neg h1]
    simp only [Bool.or_eq_true, beq_iff_eq, not_or] at h1
    obtain ⟨hne, he⟩ := h1
    cases hbs : s.isBitset
    · -- big-integer `m`：`m ∈ γ t` は `t` の上の範囲のビット
      have hm := bounds_of_checkInvariants hs hbs
      rw [if_pos (by simp [isBigInteger, hbs]), gamma_of_isBigInteger hbs,
        Set.singleton_subset_iff, mem_gamma]
      cases hbt : t.isBitset
      · -- 違う二つの big-integer
        have hmn : s.m_bits.toNat ≠ t.m_bits.toNat := fun h => hne (eq_of_toNat_eq h)
        rw [hasUpperRange_of_isBigInteger ht hbt, mem_of_isBigInteger hbt, decide_eq_false hmn]
      · exact Eq.congr_left (hasUpperRange_eq_mem hbt hm.1 hm.2)
    · rw [if_neg (by simp [isBigInteger, hbs])]
      cases hbt : t.isBitset
      · -- 空でない bitset は 62 以上の一点に含まれない
        have hn := (bounds_of_checkInvariants ht hbt).1
        rw [if_pos (by simp [isBigInteger, hbt]), gamma_of_isBigInteger hbt,
          Set.subset_singleton_iff_eq]
        refine iff_of_false Bool.false_ne_true ?_
        rintro (h | h)
        · exact he ((empty_iff hs).mpr h)
        · exact gamma_ne_singleton_of_isBitset hbs (by omega) h
      · rw [if_neg (by simp [isBigInteger, hbt])]
        exact not_and_not_ne_zero_iff hbs hbt

/-! ## `maybe` -/

/-- ビット 63 の立った語 `r` で、`r & (r - 1) != 0` は 63 より下のビットが立っていること。 -/
theorem and_sub_one_ne_zero_iff {r : UInt64} (h63 : r.toNat.testBit 63 = true) :
    (r &&& (r - 1) != 0) = true ↔ ∃ i < 63, r.toNat.testBit i = true := by
  obtain ⟨t, ht, hlow⟩ := exists_lowest_testBit h63
  have ht63 : t ≤ 63 := by
    by_contra h
    rw [hlow 63 (by omega)] at h63
    exact Bool.false_ne_true h63
  -- どちらも「一番下のビット `t` が 63 でない」
  have hzero : r &&& (r - 1) = 0 ↔ t = 63 := by
    constructor
    · intro h
      by_contra hne
      have := testBit_and_sub_one_uint64 ht hlow 63
      rw [h, h63, UInt64.toNat_zero, Nat.zero_testBit, decide_eq_true (Ne.symm hne)] at this
      exact Bool.false_ne_true this
    · rintro rfl
      apply eq_of_testBit
      intro i hi
      rw [testBit_and_sub_one_uint64 ht hlow, UInt64.toNat_zero, Nat.zero_testBit]
      by_cases h : i < 63
      · rw [hlow i h, Bool.false_and]
      · rw [decide_eq_false (show ¬ i ≠ 63 by omega), Bool.and_false]
  have hexists : (∃ i < 63, r.toNat.testBit i = true) ↔ t < 63 := by
    constructor
    · rintro ⟨i, hi, hb⟩
      have : t ≤ i := by
        by_contra h
        rw [hlow i (by omega)] at hb
        exact Bool.false_ne_true hb
      omega
    · intro h
      exact ⟨t, h, ht⟩
  rw [hexists, bne_iff_ne, ne_eq, hzero]
  omega

/-- 二つの bitset の `γ` が交わるのは、`&` にビット `0..62` のどれかが残るとき。 -/
theorem setOf_memBits_inter_nonempty_iff {a b : UInt64} :
    ({i | memBits a i = true} ∩ {i | memBits b i = true}).Nonempty ↔
      ∃ i < 63, (a &&& b).toNat.testBit i = true := by
  constructor
  · rintro ⟨i, ha, hb⟩
    rw [Set.mem_ofPred_eq] at ha hb
    by_cases h61 : i ≤ 61
    · refine ⟨i, by omega, ?_⟩
      rw [testBit_and, testBit_eq_memBits (by omega), testBit_eq_memBits (by omega), ha, hb,
        Bool.and_self]
    · rw [memBits_of_gt _ (by omega), Bool.and_eq_true] at ha hb
      exact ⟨62, by omega, by rw [testBit_and, ha.1, hb.1, Bool.and_self]⟩
  · rintro ⟨i, hi, h⟩
    rw [testBit_and, Bool.and_eq_true, testBit_eq_memBits (by omega),
      testBit_eq_memBits (by omega)] at h
    exact ⟨i, h.1, h.2⟩

/-- `s.maybe(t)` は `γ s` と `γ t` が交わること。 -/
theorem maybe_iff {s t : AliasIdSet} (hs : s.checkInvariants = true)
    (ht : t.checkInvariants = true) : s.maybe t = true ↔ (gamma s ∩ gamma t).Nonempty := by
  unfold maybe isBigInteger
  cases hbs : s.isBitset <;> cases hbt : t.isBitset <;>
    simp only [Bool.not_false, Bool.not_true, Bool.false_eq_true, if_true, if_false]
  · -- 二つの big-integer：同じ id のときだけ
    rw [gamma_of_isBigInteger hbs, gamma_of_isBigInteger hbt,
      Set.singleton_inter_nonempty, Set.mem_singleton_iff, hasUpperRange_of_isBigInteger ht hbt]
    by_cases hmn : s.m_bits.toNat = t.m_bits.toNat
    · rw [if_pos (beq_iff_eq.mpr (UInt64.toNat_inj.mp hmn))]
      exact iff_of_true rfl hmn
    · rw [if_neg (fun h => hmn (congrArg UInt64.toNat (beq_iff_eq.mp h)))]
      exact iff_of_false Bool.false_ne_true hmn
  · -- big-integer `m` と bitset：語は等しくなりえず、`m ∈ γ t` は上の範囲のビット
    have hm := bounds_of_checkInvariants hs hbs
    have hne : s.m_bits ≠ t.m_bits := fun h => by
      rw [isBitset_eq, ← h] at hbt
      rw [isBitset_eq, hbt] at hbs
      exact absurd hbs (by decide)
    rw [if_neg (by simpa using hne), gamma_of_isBigInteger hbs,
      Set.singleton_inter_nonempty, mem_gamma]
    exact Eq.congr_left (hasUpperRange_eq_mem hbt hm.1 hm.2)
  · -- bitset と big-integer `n`
    have hn := bounds_of_checkInvariants ht hbt
    rw [gamma_of_isBigInteger hbt, Set.inter_singleton_nonempty, mem_gamma]
    exact Eq.congr_left (hasUpperRange_eq_mem hbs hn.1 hn.2)
  · -- どちらも bitset：`r = m_bits & other.m_bits` にはビット 63 が立つ
    rw [gamma_of_isBitset hbs, gamma_of_isBitset hbt, setOf_memBits_inter_nonempty_iff]
    rw [isBitset_eq] at hbs hbt
    exact and_sub_one_ne_zero_iff (by rw [testBit_and, hbs, hbt, Bool.and_self])

/-! ## `hasSingleValue` と `singleValue` -/

theorem ffs64_eq_some_iff {w : UInt64} {t : Nat} :
    ffs64 w = some t ↔
      t < 64 ∧ w.toNat.testBit t = true ∧ ∀ j < t, w.toNat.testBit j = false := by
  rw [ffs64, List.find?_range_eq_some, List.mem_range]
  simp only [Bool.not_eq_true']
  exact ⟨fun ⟨h1, h2, h3⟩ => ⟨h2, h1, h3⟩, fun ⟨h1, h2, h3⟩ => ⟨h2, h1, h3⟩⟩

/-- 上の範囲のない bitset の一番下の立っているビットを `t` とすると、`m_bits & (m_bits - 1)` が
`Empty` なのは `γ s = {t}` のとき：`t` を落として最上位ビットだけが残る。 -/
theorem and_sub_one_eq_Empty_iff {s : AliasIdSet} (hb : s.isBitset = true)
    (hu : s.hasUpperRange = false) {t : Nat} (ht : s.m_bits.toNat.testBit t = true)
    (hlow : ∀ j < t, s.m_bits.toNat.testBit j = false) :
    (s.m_bits &&& (s.m_bits - 1) == Empty) = true ↔ gamma s = {t} := by
  have hbits := testBit_and_sub_one_uint64 ht hlow
  have h63 : s.m_bits.toNat.testBit 63 = true := by rw [← isBitset_eq]; exact hb
  have h62 : s.m_bits.toNat.testBit 62 = false := by rw [← hasUpperRange_eq]; exact hu
  rw [gamma_of_not_hasUpperRange hb hu, beq_iff_eq]
  constructor
  · intro h
    have hx : ∀ i, (s.m_bits.toNat.testBit i && decide (i ≠ t)) = decide (i = 63) := by
      intro i
      rw [← hbits, h, testBit_Empty]
    -- `t` はビット 63 ではない（そうなら結果のビット 63 が落ちる）ので 61 以下
    have ht63 : t ≠ 63 := by
      intro h'
      have := hx 63
      rw [h63, h'] at this
      simp at this
    have ht61 : t ≤ 61 := by
      have : t < 64 := by
        by_contra h'
        rw [testBit_toNat_of_le _ (by omega)] at ht
        exact Bool.false_ne_true ht
      have : t ≠ 62 := fun h' => by rw [h', h62] at ht; exact Bool.false_ne_true ht
      omega
    ext i
    rw [Set.mem_ofPred_eq, Set.mem_singleton_iff]
    constructor
    · rintro ⟨hi, hbit⟩
      by_contra hit
      have := hx i
      rw [hbit, decide_eq_true hit, decide_eq_false (show i ≠ 63 by omega)] at this
      simp at this
    · rintro rfl
      exact ⟨ht61, ht⟩
  · intro h
    have ht61 : t ≤ 61 := (Set.ext_iff.mp h t).mpr rfl |>.1
    apply eq_of_testBit
    intro i hi
    rw [hbits, testBit_Empty]
    by_cases hit : i = t
    · rw [decide_eq_false (not_not.mpr hit), Bool.and_false, decide_eq_false (by omega)]
    · by_cases h61 : i ≤ 61
      · have : s.m_bits.toNat.testBit i = false := by
          by_contra hbit
          have := (Set.ext_iff.mp h i).mp ⟨h61, by simpa using hbit⟩
          exact hit this
        rw [this, Bool.false_and, decide_eq_false (by omega)]
      · by_cases h62' : i = 62
        · rw [h62', h62, Bool.false_and]
          rfl
        · rw [show i = 63 by omega, h63, decide_eq_true (show (63 : Nat) ≠ t by omega)]
          rfl

/-- 上の範囲のない bitset の `γ` が一点なら、その点は一番下の立っているビット。 -/
theorem gamma_eq_singleton_lowest {s : AliasIdSet} (hb : s.isBitset = true)
    (hu : s.hasUpperRange = false) {t : Nat} (ht : s.m_bits.toNat.testBit t = true)
    (hlow : ∀ j < t, s.m_bits.toNat.testBit j = false) :
    (∃ x, gamma s = {x}) ↔ gamma s = {t} := by
  constructor
  · rintro ⟨x, hx⟩
    have hmem : x ∈ gamma s := by rw [hx]; rfl
    rw [gamma_of_not_hasUpperRange hb hu] at hmem hx
    obtain ⟨hx61, hxbit⟩ := hmem
    have htx : t ≤ x := by
      by_contra h
      rw [hlow x (by omega)] at hxbit
      exact Bool.false_ne_true hxbit
    have : t ∈ {i | i ≤ 61 ∧ s.m_bits.toNat.testBit i = true} := ⟨by omega, ht⟩
    rw [hx, Set.mem_singleton_iff] at this
    rw [gamma_of_not_hasUpperRange hb hu, hx, this]
  · intro h
    exact ⟨t, h⟩

/-- `hasSingleValue()` は `γ s` がちょうど一点であること。 -/
theorem hasSingleValue_iff (s : AliasIdSet) :
    s.hasSingleValue = true ↔ ∃ x, gamma s = {x} := by
  unfold hasSingleValue isBigInteger
  cases hb : s.isBitset <;> simp only [Bool.not_false, Bool.not_true, Bool.false_eq_true, if_true,
    if_false]
  · exact iff_of_true trivial ⟨_, gamma_of_isBigInteger hb⟩
  · cases hu : s.hasUpperRange
    · rw [if_neg Bool.false_ne_true]
      have h63 : s.m_bits.toNat.testBit 63 = true := by rw [← isBitset_eq]; exact hb
      obtain ⟨t, ht, hlow⟩ := exists_lowest_testBit h63
      rw [gamma_eq_singleton_lowest hb hu ht hlow]
      exact and_sub_one_eq_Empty_iff hb hu ht hlow
    · rw [if_pos rfl]
      exact iff_of_false Bool.false_ne_true
        (fun ⟨x, hx⟩ => gamma_ne_singleton_of_hasUpperRange hb hu x hx)

/-- `hasSingleValue()` のとき、`singleValue()` がその一点：bitset では `ffs64` の一番下のビット。 -/
theorem gamma_singleValue {s : AliasIdSet} (hs : s.checkInvariants = true)
    (h : s.hasSingleValue = true) : gamma s = {s.singleValue.toNat} := by
  unfold singleValue
  cases hb : s.isBitset
  · have := (bounds_of_checkInvariants hs hb).2
    rw [if_neg Bool.false_ne_true, gamma_of_isBigInteger hb, UInt64.toNat_toUInt32,
      Nat.mod_eq_of_lt (by omega)]
  · rw [if_pos rfl]
    -- 一点の bitset には上の範囲がない
    have hu : s.hasUpperRange = false := by
      cases hu : s.hasUpperRange
      · rfl
      · obtain ⟨x, hx⟩ := (hasSingleValue_iff s).mp h
        exact absurd hx (gamma_ne_singleton_of_hasUpperRange hb hu x)
    have h63 : s.m_bits.toNat.testBit 63 = true := by rw [← isBitset_eq]; exact hb
    obtain ⟨t, ht, hlow⟩ := exists_lowest_testBit h63
    have ht64 : t < 64 := by
      by_contra h'
      rw [testBit_toNat_of_le _ (by omega)] at ht
      exact Bool.false_ne_true ht
    rw [ffs64_eq_some_iff.mpr ⟨ht64, ht, hlow⟩, Option.getD_some, Nat.toUInt32, UInt32.toNat_ofNat',
      Nat.mod_eq_of_lt (by omega)]
    exact (gamma_eq_singleton_lowest hb hu ht hlow).mp ((hasSingleValue_iff s).mp h)

/-! ## `size` -/

theorem popcount_le (w : UInt64) : popcount w ≤ 64 := by
  unfold popcount
  exact (List.length_filter_le _ _).trans (List.length_range).le

/-- 上の範囲のない bitset の `popcount` は、ビット `0..61` の数に最上位ビットの 1 を足したもの。 -/
theorem popcount_of_not_hasUpperRange {s : AliasIdSet} (hb : s.isBitset = true)
    (hu : s.hasUpperRange = false) :
    popcount s.m_bits = ((List.range 62).filter fun i => s.m_bits.toNat.testBit i).length + 1 := by
  rw [isBitset_eq] at hb
  rw [hasUpperRange_eq] at hu
  simp only [popcount, List.range_succ, List.filter_append, List.length_append, hb, hu,
    List.filter_cons, List.filter_nil]
  rfl

/-- 上の範囲がなければ `size()` は `γ s` の要素の個数：最上位ビットは数えない。 -/
theorem size_eq_ncard {s : AliasIdSet} (hu : s.hasUpperRange = false) :
    s.size.toNat = (gamma s).ncard := by
  unfold size isBigInteger
  cases hb : s.isBitset <;> simp only [Bool.not_false, Bool.not_true, Bool.false_eq_true, if_true,
    if_false]
  · rw [gamma_of_isBigInteger hb, Set.ncard_singleton]
    rfl
  · rw [hu, if_neg Bool.false_ne_true]
    have hγ : gamma s = ↑((List.range 62).filter fun i => s.m_bits.toNat.testBit i).toFinset := by
      rw [gamma_of_not_hasUpperRange hb hu]
      ext i
      simp only [Set.mem_ofPred_eq, Finset.mem_coe, List.mem_toFinset, List.mem_filter,
        List.mem_range]
      exact and_congr_left fun _ => by omega
    have hle := popcount_le s.m_bits
    rw [hγ, Set.ncard_coe_finset, List.toFinset_card_of_nodup (List.nodup_range.filter _),
      Nat.toUInt32, UInt32.toNat_ofNat', Nat.mod_eq_of_lt (by omega),
      popcount_of_not_hasUpperRange hb hu, Nat.add_sub_cancel]

end Hhvm.Jit.AliasIdSet
