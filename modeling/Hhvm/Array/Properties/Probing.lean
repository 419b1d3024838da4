import Hhvm.Array.HashTable
import Hhvm.Infra.Probe

/-!
# 探索ループの意味

`findLoop` と `newInsertLoop` は、三角数の探索列を順にたどって最初に止まるマスで結果を返す。
ここではそれを一度だけ示し、後の証明はループを展開しない。

* `findImpl_first` — 最初に止まるマスが `numSlots` 回以内にあれば、`findImpl` はそこで返る
* `newInsertLoop_first` / `findForNewInsert_first` — 同じことを `findForNewInsert` について
* `newInsertLoop_spec` — `findForNewInsert` が返すマスは、`Empty` か `Tombstone` の最初のマスである
-/

namespace Hhvm

open Infra.Probe HashTableCommon

namespace HashTable

variable {Elm : Type}

/-! ## mask と探索列 -/

/-- 大きさ `4 * m_scale` の hash 表の mask との `&&&` は剰余である。 -/
theorem land_Mask {scale k : Nat} (hk : scale = 2 ^ k) (x : Nat) :
    x &&& Mask scale = x % numSlots scale := by
  have h : numSlots scale = 2 ^ (k + 2) := by
    rw [numSlots, hk, Nat.pow_add]; ring
  have hm : Mask scale = 2 ^ (k + 2) - 1 := by
    rw [Mask, ← h, numSlots]
  rw [hm, h, land_pred_eq_mod]

theorem numSlots_pos {scale k : Nat} (hk : scale = 2 ^ k) : 0 < numSlots scale := by
  rw [numSlots, hk]; exact Nat.mul_pos (by decide) (Nat.two_pow_pos k)

theorem numSlots_eq_pow {scale k : Nat} (hk : scale = 2 ^ k) : numSlots scale = 2 ^ (k + 2) := by
  rw [numSlots, hk, Nat.pow_add]; ring

/-- ループの一歩は探索列の次の位置へ進む。 -/
theorem step_probeSeq {scale k : Nat} (hk : scale = 2 ^ k) (h m : Nat) :
    (probeSeq (numSlots scale) h m + (m + 1)) &&& Mask scale
      = probeSeq (numSlots scale) h (m + 1) := by
  rw [land_Mask hk, probeSeq_succ]

/-- 探索の出発点は探索列の 0 番目である。 -/
theorem start_probeSeq {scale k : Nat} (hk : scale = 2 ^ k) (h : Nat) :
    h &&& Mask scale = probeSeq (numSlots scale) h 0 := by
  rw [land_Mask hk, probeSeq_zero]

/-! ## `computeScaleFromSize` -/

theorem scaleLoop_pow (n : Nat) : ∀ fuel k, ∃ k', scaleLoop n fuel (2 ^ k) = 2 ^ k' := by
  intro fuel
  induction fuel with
  | zero => intro k; exact ⟨k, rfl⟩
  | succ fuel ih =>
    intro k
    by_cases hc : Capacity (2 ^ k) < n
    · rw [scaleLoop, if_pos hc, ← Nat.pow_succ]
      exact ih (k + 1)
    · rw [scaleLoop, if_neg hc]
      exact ⟨k, rfl⟩

/-- ループが止まるのは、容量が `n` に届いたときか、fuel を使い切ったときである。 -/
theorem scaleLoop_capacity (n : Nat) :
    ∀ fuel k, n ≤ Capacity (2 ^ (k + fuel)) → n ≤ Capacity (scaleLoop n fuel (2 ^ k)) := by
  intro fuel
  induction fuel with
  | zero => intro k h; exact h
  | succ fuel ih =>
    intro k h
    by_cases hc : Capacity (2 ^ k) < n
    · rw [scaleLoop, if_pos hc, ← Nat.pow_succ]
      exact ih (k + 1) (by rwa [Nat.add_right_comm, Nat.add_assoc])
    · rw [scaleLoop, if_neg hc]
      exact Nat.le_of_not_lt hc

theorem computeScaleFromSize_pow (n : Nat) : ∃ k, computeScaleFromSize n = 2 ^ k := by
  unfold computeScaleFromSize
  split
  · exact ⟨30, rfl⟩
  · exact scaleLoop_pow n 31 0

/-- `MaxScale` より小さい表が選ばれたなら、その容量は `n` 以上である。 -/
theorem computeScaleFromSize_capacity {n : Nat} (h : computeScaleFromSize n < MaxScale) :
    n ≤ Capacity (computeScaleFromSize n) := by
  unfold computeScaleFromSize at *
  split
  · next hn => rw [if_pos hn] at h; exact absurd h (lt_irrefl _)
  · next hn =>
    have hmax : MaxSize ≤ Capacity (2 ^ (0 + 31)) := by decide
    exact scaleLoop_capacity n 31 0 (by omega)

/-- 容量が `n` に届かない冪を一つずつ越えていき、初めて届いた `2 ^ m` で止まる。 -/
theorem scaleLoop_eq_of_capacity (n : Nat) :
    ∀ fuel k m, k ≤ m → m ≤ k + fuel → (∀ j, k ≤ j → j < m → Capacity (2 ^ j) < n) →
      n ≤ Capacity (2 ^ m) → scaleLoop n fuel (2 ^ k) = 2 ^ m := by
  intro fuel
  induction fuel with
  | zero =>
    intro k m hkm hmk _ _
    obtain rfl : m = k := by omega
    rfl
  | succ fuel ih =>
    intro k m hkm hmk hlt hge
    by_cases hc : Capacity (2 ^ k) < n
    · -- まだ届かない：`2 ^ m` の手前なので倍にして続ける
      have hk : k < m := by
        rcases Nat.lt_or_ge k m with hk | hk
        · exact hk
        · obtain rfl : m = k := by omega
          omega
      rw [scaleLoop, if_pos hc, ← Nat.pow_succ]
      exact ih (k + 1) m hk (by omega) (fun j hj hjm => hlt j (by omega) hjm) hge
    · -- 届いた：手前の冪はどれも届かないので、ここが `2 ^ m`
      obtain rfl : k = m := by
        by_contra hne
        exact hc (hlt k (Nat.le_refl k) (by omega))
      rw [scaleLoop, if_neg hc]

/-- `n` が `Capacity(2 ^ 29)` を越えれば、選ばれる表は `MaxScale`（`2 ^ 32` マス）である。 -/
theorem computeScaleFromSize_of_lt {n : Nat} (h : Capacity (2 ^ 29) < n) :
    computeScaleFromSize n = MaxScale := by
  unfold computeScaleFromSize
  split
  · rfl
  · next hn =>
    have hmono : ∀ j, j < 30 → Capacity (2 ^ j) ≤ Capacity (2 ^ 29) := fun j hj => by
      have := Nat.pow_le_pow_right (show 0 < 2 by decide) (show j ≤ 29 by omega)
      unfold Capacity
      omega
    have hmax : MaxSize = Capacity (2 ^ 30) := by decide
    show scaleLoop n 31 (2 ^ 0) = MaxScale
    rw [scaleLoop_eq_of_capacity n 31 0 30 (by omega) (by omega)
      (fun j _ hj => (hmono j hj).trans_lt h) (by omega)]
    rfl

/-! ## `HashSize` と `checkInvariants` -/

/-- `uint32_t` の `4 * MaxScale` は 0 に巡る。 -/
theorem HashSize_MaxScale : HashSize MaxScale = 0 := by decide

/-- `MaxScale` より小さい表では、`HashSize` はマスの数と同じ。 -/
theorem HashSize_of_lt_MaxScale {scale : Nat} (h : scale < MaxScale) : HashSize scale = numSlots scale := by
  have hmax : MaxScale = 2 ^ 30 := by decide
  unfold HashSize numSlots
  omega

/-- `MaxScale` の表は `checkInvariants` を通らない：`HashSize(m_scale)` は 0 だが、
`nextPowTwo(capacity())` は 2 の冪で 0 でない。 -/
theorem checkInvariants_of_scale_eq_MaxScale {t : HashTable Elm} (h : t.scale = MaxScale) :
    t.checkInvariants = false := by
  have hpos := Nat.pos_of_isPowerOfTwo (Nat.isPowerOfTwo_nextPowerOfTwo (Capacity t.scale))
  have hne : (HashSize t.scale == (Capacity t.scale).nextPowerOfTwo) = false := by
    rw [h, HashSize_MaxScale, beq_eq_false_iff_ne]
    rw [h] at hpos
    omega
  simp only [checkInvariants, hne, Bool.and_false, Bool.false_and]

/-! ## `findImpl` -/

/-- マス `j` で探索が止まるなら、その結果。 -/
def stopAt (t : HashTable Elm) (hit : Elm → Bool) (j : Nat) : Option Found :=
  match t.hashTab j with
  | .pos p => if t.hitAt hit p then some (.hit j p) else none
  | .empty => some (.miss j)
  | .tombstone => none

theorem stopAt_pos {t : HashTable Elm} {hit : Elm → Bool} {j p : Nat} (h : t.hashTab j = .pos p) :
    t.stopAt hit j = if t.hitAt hit p then some (.hit j p) else none := by
  simp [stopAt, h]

theorem stopAt_empty {t : HashTable Elm} {hit : Elm → Bool} {j : Nat} (h : t.hashTab j = .empty) :
    t.stopAt hit j = some (.miss j) := by
  simp [stopAt, h]

theorem stopAt_tombstone {t : HashTable Elm} {hit : Elm → Bool} {j : Nat}
    (h : t.hashTab j = .tombstone) : t.stopAt hit j = none := by
  simp [stopAt, h]

theorem findLoop_succ (t : HashTable Elm) (hit : Elm → Bool) (fuel probe i : Nat) :
    t.findLoop hit (fuel + 1) probe i =
      match t.stopAt hit probe with
      | some r => some r
      | none => t.findLoop hit fuel ((probe + i) &&& t.mask) (i + 1) := by
  cases hp : t.hashTab probe with
  | pos p => by_cases hh : t.hitAt hit p <;> simp [findLoop, stopAt, hp, hh]
  | empty => simp [findLoop, stopAt, hp]
  | tombstone => simp [findLoop, stopAt, hp]

/-- **ループは最初に止まるマスで返る。** 探索列の `m` 番目から、`n` 番目で初めて止まる場合。 -/
theorem findLoop_first {t : HashTable Elm} {k : Nat} (hk : t.scale = 2 ^ k)
    (hit : Elm → Bool) (h : Nat) {n : Nat} {r : Found}
    (hstop : t.stopAt hit (probeSeq (numSlots t.scale) h n) = some r) :
    ∀ fuel m, m ≤ n → n < m + fuel →
      (∀ m', m ≤ m' → m' < n → t.stopAt hit (probeSeq (numSlots t.scale) h m') = none) →
      t.findLoop hit fuel (probeSeq (numSlots t.scale) h m) (m + 1) = some r := by
  intro fuel
  induction fuel with
  | zero => intro m _ hn; omega
  | succ fuel ih =>
    intro m hmn hn hskip
    rw [findLoop_succ]
    rcases Nat.lt_or_eq_of_le hmn with hlt | rfl
    · rw [hskip m (le_refl m) hlt]
      show t.findLoop hit fuel ((probeSeq _ h m + (m + 1)) &&& Mask t.scale) (m + 1 + 1) = _
      rw [step_probeSeq hk]
      exact ih (m + 1) hlt (by omega) (fun m' h1 h2 => hskip m' (by omega) h2)
    · rw [hstop]

/-- **ループの結果の逆算。** ループが返したなら、探索列のどこかで初めて止まったマスの結果である。 -/
theorem findLoop_spec {t : HashTable Elm} {k : Nat} (hk : t.scale = 2 ^ k)
    (hit : Elm → Bool) (h : Nat) :
    ∀ fuel m {r : Found}, t.findLoop hit fuel (probeSeq (numSlots t.scale) h m) (m + 1) = some r →
      ∃ n, m ≤ n ∧ n < m + fuel ∧ t.stopAt hit (probeSeq (numSlots t.scale) h n) = some r ∧
        ∀ m', m ≤ m' → m' < n → t.stopAt hit (probeSeq (numSlots t.scale) h m') = none := by
  intro fuel
  induction fuel with
  | zero => intro m r hr; cases hr
  | succ fuel ih =>
    intro m r hr
    rw [findLoop_succ] at hr
    cases hs : t.stopAt hit (probeSeq (numSlots t.scale) h m) with
    | some r' =>
      rw [hs] at hr
      cases hr
      exact ⟨m, le_refl m, by omega, hs, fun m' h1 h2 => absurd h2 (by omega)⟩
    | none =>
      rw [hs] at hr
      change t.findLoop hit fuel ((probeSeq _ h m + (m + 1)) &&& Mask t.scale) (m + 1 + 1) = _ at hr
      rw [step_probeSeq hk] at hr
      obtain ⟨n, h1, h2, hstop, hskip⟩ := ih (m + 1) hr
      refine ⟨n, by omega, by omega, hstop, fun m' hm' hlt => ?_⟩
      rcases Nat.lt_or_eq_of_le hm' with hlt' | rfl
      · exact hskip m' hlt' hlt
      · exact hs

/-- `findImpl` が返したなら、それは探索列で `numSlots` 回以内に初めて止まったマスの結果である。 -/
theorem findImpl_spec {t : HashTable Elm} {k : Nat} (hk : t.scale = 2 ^ k)
    {hit : Elm → Bool} {h0 : UInt32} {r : Found} (hr : t.findImpl h0 hit = some r) :
    ∃ n, n < numSlots t.scale ∧ t.stopAt hit (probeSeq (numSlots t.scale) h0.toNat n) = some r ∧
      ∀ m, m < n → t.stopAt hit (probeSeq (numSlots t.scale) h0.toNat m) = none := by
  unfold findImpl at hr
  rw [show t.mask = Mask t.scale from rfl, start_probeSeq hk] at hr
  obtain ⟨n, -, hn, hstop, hskip⟩ := findLoop_spec hk hit h0.toNat _ 0 hr
  exact ⟨n, by omega, hstop, fun m hm => hskip m (Nat.zero_le m) hm⟩

theorem stopAt_eq_hit {t : HashTable Elm} {hit : Elm → Bool} {j p i : Nat}
    (h : t.stopAt hit j = some (.hit p i)) : p = j ∧ t.hashTab j = .pos i ∧ t.hitAt hit i = true := by
  unfold stopAt at h
  split at h
  · next i' hj =>
    split at h
    · next hh => cases h; exact ⟨rfl, hj, hh⟩
    · cases h
  · cases h
  · cases h

theorem stopAt_eq_miss {t : HashTable Elm} {hit : Elm → Bool} {j p : Nat}
    (h : t.stopAt hit j = some (.miss p)) : p = j ∧ t.hashTab j = .empty := by
  unfold stopAt at h
  split at h
  · split at h <;> cases h
  · next hj => cases h; exact ⟨rfl, hj⟩
  · cases h

theorem ne_empty_of_stopAt_none {t : HashTable Elm} {hit : Elm → Bool} {j : Nat}
    (h : t.stopAt hit j = none) : t.hashTab j ≠ .empty := by
  intro hj
  rw [stopAt_empty hj] at h
  cases h

/-- `findImpl` は、最初に止まるマスが `numSlots` 回以内にあればそこで返る。 -/
theorem findImpl_first {t : HashTable Elm} {k : Nat} (hk : t.scale = 2 ^ k)
    (hit : Elm → Bool) (h0 : UInt32) {n : Nat} {r : Found} (hn : n < numSlots t.scale)
    (hskip : ∀ m, m < n → t.stopAt hit (probeSeq (numSlots t.scale) h0.toNat m) = none)
    (hstop : t.stopAt hit (probeSeq (numSlots t.scale) h0.toNat n) = some r) :
    t.findImpl h0 hit = some r := by
  unfold findImpl
  rw [show t.mask = Mask t.scale from rfl, start_probeSeq hk]
  exact findLoop_first hk hit h0.toNat hstop _ 0 (Nat.zero_le n) (by omega)
    (fun m' _ h2 => hskip m' h2)

/-! ## `findForNewInsert` -/

theorem newInsertLoop_succ (table : Nat → Slot) (mask fuel probe i : Nat) :
    newInsertLoop table mask (fuel + 1) probe i =
      if (table probe).validPos then newInsertLoop table mask fuel ((probe + i) &&& mask) (i + 1)
      else some (probe, i) := rfl

/-- `findForNewInsert` のループは、探索列で初めて位置を指していないマスで返る。 -/
theorem newInsertLoop_first {table : Nat → Slot} {scale k : Nat} (hk : scale = 2 ^ k)
    (h : Nat) {n : Nat} (hstop : (table (probeSeq (numSlots scale) h n)).validPos = false) :
    ∀ fuel m, m ≤ n → n < m + fuel →
      (∀ m', m ≤ m' → m' < n → (table (probeSeq (numSlots scale) h m')).validPos = true) →
      newInsertLoop table (Mask scale) fuel (probeSeq (numSlots scale) h m) (m + 1)
        = some (probeSeq (numSlots scale) h n, n + 1) := by
  intro fuel
  induction fuel with
  | zero => intro m _ hn; omega
  | succ fuel ih =>
    intro m hmn hn hskip
    rw [newInsertLoop_succ]
    rcases Nat.lt_or_eq_of_le hmn with hlt | rfl
    · rw [if_pos (hskip m (le_refl m) hlt), step_probeSeq hk]
      exact ih (m + 1) hlt (by omega) (fun m' h1 h2 => hskip m' (by omega) h2)
    · rw [if_neg (by rw [hstop]; decide)]

/-- `findForNewInsert` が返すのは、探索列で初めて位置を指していないマスである。 -/
theorem findForNewInsert_first {table : Nat → Slot} {scale k : Nat} (hk : scale = 2 ^ k)
    (h0 : UInt32) {n : Nat} (hn : n < numSlots scale)
    (hskip : ∀ m, m < n → (table (probeSeq (numSlots scale) h0.toNat m)).validPos = true)
    (hstop : (table (probeSeq (numSlots scale) h0.toNat n)).validPos = false) :
    newInsertLoop table (Mask scale) (Mask scale + 1) (h0.toNat &&& Mask scale) 1
      = some (probeSeq (numSlots scale) h0.toNat n, n + 1) := by
  have hN : Mask scale + 1 = numSlots scale := by
    have := numSlots_pos hk
    rw [Mask, numSlots] at *; omega
  rw [start_probeSeq hk, hN]
  exact newInsertLoop_first hk h0.toNat hstop _ 0 (Nat.zero_le n) (by omega)
    (fun m' _ h2 => hskip m' h2)

/-- 表のどこかに位置を指していないマスがあれば、`findForNewInsert` はその最初のものを返す。 -/
theorem newInsertLoop_spec {table : Nat → Slot} {scale k : Nat} (hk : scale = 2 ^ k)
    (h0 : UInt32) (hfree : ∃ j, j < numSlots scale ∧ (table j).validPos = false) :
    ∃ n, n < numSlots scale ∧
      newInsertLoop table (Mask scale) (Mask scale + 1) (h0.toNat &&& Mask scale) 1
        = some (probeSeq (numSlots scale) h0.toNat n, n + 1) ∧
      (table (probeSeq (numSlots scale) h0.toNat n)).validPos = false ∧
      ∀ m, m < n → (table (probeSeq (numSlots scale) h0.toNat m)).validPos = true := by
  obtain ⟨j, hj, hjfree⟩ := hfree
  rw [numSlots_eq_pow hk] at hj
  obtain ⟨t, ht, htj⟩ := probeSeq_surjective (k + 2) h0.toNat j hj
  have hex : ∃ n, (table (probeSeq (numSlots scale) h0.toNat n)).validPos = false :=
    ⟨t, by rw [numSlots_eq_pow hk, htj]; exact hjfree⟩
  have hmin := Nat.find_min' hex (m := t) (by rw [numSlots_eq_pow hk, htj]; exact hjfree)
  have hlt : Nat.find hex < numSlots scale := by
    have := numSlots_eq_pow hk
    omega
  have hskip : ∀ m, m < Nat.find hex →
      (table (probeSeq (numSlots scale) h0.toNat m)).validPos = true := by
    intro m hm
    have := Nat.find_min hex hm
    simpa using this
  exact ⟨Nat.find hex, hlt, findForNewInsert_first hk h0 hlt hskip (Nat.find_spec hex),
    Nat.find_spec hex, hskip⟩

/-! ## 止まること -/

/-- 表に `Empty` のマスがあれば、`findImpl` は探索列の `numSlots` 回以内で初めて止まるマスで返る：
探索列はどのマスも通る（`probeSeq_surjective`）ので止まるマスがあり、その最初のものを取る。 -/
theorem findImpl_terminates {t : HashTable Elm} {k : Nat} (hk : t.scale = 2 ^ k)
    (hit : Elm → Bool) (h0 : UInt32)
    (hempty : ∃ j, j < numSlots t.scale ∧ t.hashTab j = .empty) :
    ∃ n, n < numSlots t.scale ∧ ∃ r,
      t.stopAt hit (probeSeq (numSlots t.scale) h0.toNat n) = some r ∧ t.findImpl h0 hit = some r := by
  classical
  obtain ⟨j, hj, hje⟩ := hempty
  rw [numSlots_eq_pow hk] at hj
  obtain ⟨s, hs, hsj⟩ := probeSeq_surjective (k + 2) h0.toNat j hj
  have hstop_s : (t.stopAt hit (probeSeq (numSlots t.scale) h0.toNat s)).isSome := by
    rw [numSlots_eq_pow hk, hsj, stopAt_empty hje]
    rfl
  have hex : ∃ n, (t.stopAt hit (probeSeq (numSlots t.scale) h0.toNat n)).isSome := ⟨s, hstop_s⟩
  have hlt : Nat.find hex < numSlots t.scale := by
    have := Nat.find_min' hex hstop_s
    have hN := numSlots_eq_pow hk
    omega
  obtain ⟨r, hr⟩ := Option.isSome_iff_exists.mp (Nat.find_spec hex)
  have hskip : ∀ m, m < Nat.find hex →
      t.stopAt hit (probeSeq (numSlots t.scale) h0.toNat m) = none := by
    intro m hm
    simpa using Nat.find_min hex hm
  exact ⟨Nat.find hex, hlt, r, hr, findImpl_first hk hit h0 hlt hskip hr⟩

/-- 表に位置を指していないマスがあれば、`findForNewInsert` は `numSlots` 回以内にその最初のものを返す。 -/
theorem findForNewInsert_terminates {table : Nat → Slot} {scale k : Nat} (hk : scale = 2 ^ k)
    (h0 : UInt32) (hfree : ∃ j, j < numSlots scale ∧ (table j).validPos = false) :
    ∃ n, n < numSlots scale ∧
      findForNewInsert table (Mask scale) h0 = some (probeSeq (numSlots scale) h0.toNat n) ∧
      (table (probeSeq (numSlots scale) h0.toNat n)).validPos = false := by
  obtain ⟨n, hn, hloop, hstop, -⟩ := newInsertLoop_spec hk h0 hfree
  refine ⟨n, hn, ?_, hstop⟩
  rw [findForNewInsert, hloop, Option.map_some]

/-- 同じく `findForNewInsertWarn` も `numSlots` 回以内に止まり、歩幅が上限を超えたときだけ
`raise_error` する。 -/
theorem findForNewInsertWarn_terminates {table : Nat → Slot} {scale k : Nat} (hk : scale = 2 ^ k)
    (maxArrayChain : Nat) (h0 : UInt32)
    (hfree : ∃ j, j < numSlots scale ∧ (table j).validPos = false) :
    ∃ n, n < numSlots scale ∧
      findForNewInsertWarn maxArrayChain table (Mask scale) h0 =
        if n + 1 ≤ maxArrayChain then .ok (probeSeq (numSlots scale) h0.toNat n)
        else .error (.unbalanced (n + 1)) := by
  obtain ⟨n, hn, hloop, -, -⟩ := newInsertLoop_spec hk h0 hfree
  refine ⟨n, hn, ?_⟩
  rw [findForNewInsertWarn, hloop]

/-- **三角数の探索は表を覆う。** 大きさ `N = 4 * scale`（`scale` は 2 の冪）の表で、三つの探索
ループがたどる位置は `p_0 = h mod N`、`p_i = (p_{i-1} + i) mod N` で、最初の `N` 個は互いに異なる。
そのため `findImpl` は `Empty` のマスが一つあれば、`findForNewInsert` と `findForNewInsertWarn` は
位置を指していないマスが一つあれば、`N` 回以内に止まる。 -/
theorem triangular_probing_covers_table :
    (∀ scale k h : Nat, scale = 2 ^ k →
      h &&& Mask scale = probeSeq (numSlots scale) h 0 ∧
      probeSeq (numSlots scale) h 0 = h % numSlots scale ∧
      (∀ i, (probeSeq (numSlots scale) h i + (i + 1)) &&& Mask scale =
        probeSeq (numSlots scale) h (i + 1)) ∧
      (∀ i, (probeSeq (numSlots scale) h i + (i + 1)) % numSlots scale =
        probeSeq (numSlots scale) h (i + 1)) ∧
      ∀ i j, i < numSlots scale → j < numSlots scale →
        probeSeq (numSlots scale) h i = probeSeq (numSlots scale) h j → i = j) ∧
    (∀ {Elm : Type} (t : HashTable Elm) (k : Nat) (hit : Elm → Bool) (h0 : UInt32),
      t.scale = 2 ^ k → (∃ j, j < numSlots t.scale ∧ t.hashTab j = .empty) →
      ∃ n, n < numSlots t.scale ∧ ∃ r,
        t.stopAt hit (probeSeq (numSlots t.scale) h0.toNat n) = some r ∧
          t.findImpl h0 hit = some r) ∧
    (∀ (table : Nat → Slot) (scale k : Nat) (h0 : UInt32), scale = 2 ^ k →
      (∃ j, j < numSlots scale ∧ (table j).validPos = false) →
      ∃ n, n < numSlots scale ∧
        findForNewInsert table (Mask scale) h0 = some (probeSeq (numSlots scale) h0.toNat n) ∧
        (table (probeSeq (numSlots scale) h0.toNat n)).validPos = false) ∧
    (∀ (maxArrayChain : Nat) (table : Nat → Slot) (scale k : Nat) (h0 : UInt32), scale = 2 ^ k →
      (∃ j, j < numSlots scale ∧ (table j).validPos = false) →
      ∃ n, n < numSlots scale ∧
        findForNewInsertWarn maxArrayChain table (Mask scale) h0 =
          if n + 1 ≤ maxArrayChain then .ok (probeSeq (numSlots scale) h0.toNat n)
          else .error (.unbalanced (n + 1))) := by
  refine ⟨?_, ?_, ?_, ?_⟩
  · intro scale k h hk
    refine ⟨start_probeSeq hk h, probeSeq_zero _ h, step_probeSeq hk h,
      fun i => probeSeq_succ _ h i, ?_⟩
    intro i j hi hj heq
    rw [numSlots_eq_pow hk] at hi hj heq
    exact probeSeq_injective hi hj heq
  · intro Elm t k hit h0 hk hempty
    exact findImpl_terminates hk hit h0 hempty
  · intro table scale k h0 hk hfree
    exact findForNewInsert_terminates hk h0 hfree
  · intro maxArrayChain table scale k h0 hk hfree
    exact findForNewInsertWarn_terminates hk maxArrayChain h0 hfree

/-- 8 マスの表で、位置を指していないのはマス 1 だけ。 -/
def lastFreeTable : Nat → Slot := fun j => if j = 1 then .empty else .pos j

/-- `lastFreeTable` で `h = 13` から：探索はマス `5, 6, 0, 3, 7, 4, 2, 1` を一度ずつたどり、
`findForNewInsert` は最後のマス 1 で止まる。`MaxArrayChain` が 3 なら、`findForNewInsertWarn` は
8 歩目で `raise_error` する。 -/
theorem triangular_probing_covers_table_lastFree :
    (∀ i j, i < numSlots 2 → j < numSlots 2 →
      probeSeq (numSlots 2) 13 i = probeSeq (numSlots 2) 13 j → i = j) ∧
    (∃ n, n < numSlots 2 ∧
      findForNewInsert lastFreeTable (Mask 2) 13 = some (probeSeq (numSlots 2) 13 n) ∧
      (lastFreeTable (probeSeq (numSlots 2) 13 n)).validPos = false) ∧
    (∃ n, n < numSlots 2 ∧
      findForNewInsertWarn 3 lastFreeTable (Mask 2) 13 =
        if n + 1 ≤ 3 then .ok (probeSeq (numSlots 2) 13 n) else .error (.unbalanced (n + 1))) ∧
    (List.range 8).map (probeSeq (numSlots 2) 13) = [5, 6, 0, 3, 7, 4, 2, 1] ∧
    findForNewInsertWarn 3 lastFreeTable (Mask 2) 13 = .error (.unbalanced 8) := by
  obtain ⟨hseq, -, hnew, hwarn⟩ := triangular_probing_covers_table
  have hfree : ∃ j, j < numSlots 2 ∧ (lastFreeTable j).validPos = false := ⟨1, by decide, rfl⟩
  exact ⟨(hseq 2 1 13 rfl).2.2.2.2, hnew lastFreeTable 2 1 13 rfl hfree,
    hwarn 3 lastFreeTable 2 1 13 rfl hfree, by decide, by decide⟩

end HashTable

end Hhvm
