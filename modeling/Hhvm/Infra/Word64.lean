import Mathlib.Data.Nat.Bitwise
import Mathlib.Data.Nat.Find

/-!
# 64 ビットの語の演算を `Nat` で

`size_t` の値を `Nat` で持つとき、ビット演算はそのまま `&&&`、`|||`、`>>>`、`<<<` で書き、
`~x` は全ビットの立った語との排他的論理和（`bnot`）、`__builtin_ffsl` は下から 64 ビットを見て
最初に立っているビットの位置に 1 を足したもの（`ffs`）とする。

マスクを算術に直す補題を置く。

* `k &&& bnot (2 ^ n - 1)` は `k` を `2 ^ n` の倍数に切り下げる（`and_bnot_eq`）。
* `(k >>> s) &&& (2 ^ r - 1)` は `k / 2 ^ s % 2 ^ r`（`shiftRight_and_eq`）。
* `s < ffs x` は `2 ^ s ∣ x` と同じ（`lt_ffs_iff`、`le_ffs_sub_one_iff`）。
-/

namespace Infra.Word64

/-- 64 ビットの `~x`。 -/
def bnot (x : Nat) : Nat := x ^^^ (2 ^ 64 - 1)

/-- `ffs` の loop：ビット `j` から `n` 個を見る。 -/
def ffsFrom (x : Nat) : Nat → Nat → Nat
  | 0, _ => 0
  | n + 1, j => if x.testBit j then j + 1 else ffsFrom x n (j + 1)

/-- `__builtin_ffsl(x)`：最下位の立っているビットの位置に 1 を足したもの。`x = 0` なら 0。 -/
def ffs (x : Nat) : Nat := ffsFrom x 64 0

/-! ## マスク -/

theorem testBit_bnot (x j : Nat) :
    (bnot x).testBit j = (x.testBit j ^^ decide (j < 64)) := by
  rw [bnot, Nat.testBit_xor, Nat.testBit_two_pow_sub_one]

theorem testBit_eq_false_of_lt {k j : Nat} (hk : k < 2 ^ 64) (hj : 64 ≤ j) : k.testBit j = false :=
  Nat.testBit_lt_two_pow (Nat.lt_of_lt_of_le hk (Nat.pow_le_pow_right (by decide) hj))

/-- `k & ~(2^n - 1)` は `k` を `2 ^ n` の倍数に切り下げる。 -/
theorem and_bnot_eq {k n : Nat} (hk : k < 2 ^ 64) :
    k &&& bnot (2 ^ n - 1) = k / 2 ^ n * 2 ^ n := by
  apply Nat.eq_of_testBit_eq
  intro j
  rw [Nat.testBit_and, testBit_bnot, Nat.testBit_two_pow_sub_one, ← Nat.shiftLeft_eq,
    ← Nat.shiftRight_eq_div_pow, Nat.testBit_shiftLeft, Nat.testBit_shiftRight]
  by_cases hj : j < 64
  · by_cases hjn : j < n
    · simp [hjn, hj, Nat.not_le.mpr hjn]
    · simp [hjn, hj, Nat.le_of_not_lt hjn, Nat.add_sub_cancel' (Nat.le_of_not_lt hjn)]
  · -- 64 ビットより上は `k` のビットが立っていない
    have hk0 := testBit_eq_false_of_lt hk (Nat.le_of_not_lt hj)
    by_cases hjn : j < n
    · simp [hjn, hk0]
    · simp [hjn, hk0, Nat.add_sub_cancel' (Nat.le_of_not_lt hjn)]

/-- `(k >> s) & (2^r - 1)` は `k / 2 ^ s % 2 ^ r`。 -/
theorem shiftRight_and_eq (k s r : Nat) : (k >>> s) &&& (2 ^ r - 1) = k / 2 ^ s % 2 ^ r := by
  rw [Nat.and_two_pow_sub_one_eq_mod, Nat.shiftRight_eq_div_pow]

/-- `size_t` で 1 を引く：0 は `2 ^ 64 - 1` に回る。 -/
theorem add_pred_mod_of_pos {x : Nat} (hx : 0 < x) (hx' : x ≤ 2 ^ 64) :
    (x + (2 ^ 64 - 1)) % 2 ^ 64 = x - 1 := by
  rw [show x + (2 ^ 64 - 1) = (x - 1) + 2 ^ 64 by omega, Nat.add_mod_right,
    Nat.mod_eq_of_lt (by omega)]

/-! ## 桁 -/

/-- `2 ^ (t + r)` の倍数 `base` から `2 ^ (t + r)` 個の範囲にある `k` の、`t` ビット目からの
`r` ビットは、`k` を含む `2 ^ t` 個の組の番号。 -/
theorem digit_bounds {base k t r : Nat} (hb : 2 ^ (t + r) ∣ base) (h1 : base ≤ k)
    (h2 : k < base + 2 ^ (t + r)) :
    k / 2 ^ t % 2 ^ r = (k - base) / 2 ^ t ∧
      base + k / 2 ^ t % 2 ^ r * 2 ^ t ≤ k ∧ k < base + (k / 2 ^ t % 2 ^ r + 1) * 2 ^ t := by
  obtain ⟨c, rfl⟩ := hb
  obtain ⟨d, rfl⟩ : ∃ d, k = 2 ^ (t + r) * c + d := ⟨k - 2 ^ (t + r) * c, by omega⟩
  have ht : 0 < 2 ^ t := Nat.two_pow_pos t
  have hd : d / 2 ^ t < 2 ^ r := by
    rw [Nat.div_lt_iff_lt_mul ht, ← Nat.pow_add, Nat.add_comm r]
    omega
  -- 上の桁は `2 ^ r` の倍数なので、剰余は `d` の桁だけ
  have hdig : (2 ^ (t + r) * c + d) / 2 ^ t % 2 ^ r = d / 2 ^ t := by
    rw [Nat.pow_add, Nat.mul_assoc, Nat.mul_add_div ht, Nat.mul_add_mod, Nat.mod_eq_of_lt hd]
  rw [hdig, Nat.add_sub_cancel_left]
  refine ⟨rfl, ?_, ?_⟩
  · have := Nat.div_mul_le_self d (2 ^ t)
    omega
  · have := Nat.lt_mul_div_succ d ht
    rw [Nat.mul_comm] at this
    omega

/-- `2 ^ t` の倍数 `s` から `2 ^ t` 個の範囲にある `k` を `2 ^ t` の倍数に切り下げると `s`。 -/
theorem div_mul_eq_of_range {s k t : Nat} (hs : 2 ^ t ∣ s) (h1 : s ≤ k) (h2 : k < s + 2 ^ t) :
    k / 2 ^ t * 2 ^ t = s := by
  obtain ⟨c, rfl⟩ := hs
  rw [Nat.div_eq_of_lt_le (by rw [Nat.mul_comm]; exact h1)
    (by rw [Nat.add_mul, Nat.one_mul, Nat.mul_comm]; exact h2), Nat.mul_comm]

/-! ## `ffs` -/

/-- `2 ^ s ∣ x` は、下の `s` ビットが立っていないこと。 -/
theorem two_pow_dvd_iff_testBit (x s : Nat) : 2 ^ s ∣ x ↔ ∀ j < s, x.testBit j = false := by
  rw [Nat.dvd_iff_mod_eq_zero, ← Nat.and_two_pow_sub_one_eq_mod]
  constructor
  · intro h j hj
    have := congrArg (fun y => y.testBit j) h
    simpa [Nat.testBit_and, Nat.testBit_two_pow_sub_one, hj] using this
  · intro h
    apply Nat.eq_of_testBit_eq
    intro j
    rw [Nat.testBit_and, Nat.testBit_two_pow_sub_one, Nat.zero_testBit]
    by_cases hj : j < s
    · simp [h j hj]
    · simp [hj]

theorem two_pow_dvd_or_iff (a b s : Nat) : 2 ^ s ∣ (a ||| b) ↔ 2 ^ s ∣ a ∧ 2 ^ s ∣ b := by
  simp only [two_pow_dvd_iff_testBit, Nat.testBit_or, Bool.or_eq_false_iff]
  exact ⟨fun h => ⟨fun j hj => (h j hj).1, fun j hj => (h j hj).2⟩,
    fun h j hj => ⟨h.1 j hj, h.2 j hj⟩⟩

/-- 最下位の立っているビットが `t` なら、`ffsFrom` は `t` に着いたところで `t + 1` を返す。 -/
theorem ffsFrom_eq {x t : Nat} (ht : x.testBit t = true) (hlow : ∀ u < t, x.testBit u = false) :
    ∀ n j, j ≤ t → t < j + n → ffsFrom x n j = t + 1
  | 0, _, hj, htn => absurd htn (by omega)
  | n + 1, j, hj, htn => by
    rw [ffsFrom]
    by_cases hbj : x.testBit j
    · -- `j` より下のビットは立っていないので `j = t`
      have hjt : j = t := by
        by_contra hne
        rw [hlow j (by omega)] at hbj
        cases hbj
      rw [if_pos hbj, hjt]
    · have hjt : j ≠ t := fun h => by rw [h, ht] at hbj; exact hbj rfl
      rw [if_neg hbj]
      exact ffsFrom_eq ht hlow n (j + 1) (by omega) (by omega)

/-- `0 < x < 2 ^ 64` なら、`s < ffs x` は `2 ^ s ∣ x` と同じ。 -/
theorem lt_ffs_iff {x : Nat} (hx0 : x ≠ 0) (hx : x < 2 ^ 64) (s : Nat) :
    s < ffs x ↔ 2 ^ s ∣ x := by
  have hex : ∃ t, x.testBit t = true := Nat.exists_testBit_of_ne_zero hx0
  -- 最下位の立っているビット
  obtain ⟨ht, hlow⟩ : x.testBit (Nat.find hex) = true ∧
      ∀ u < Nat.find hex, x.testBit u = false :=
    ⟨Nat.find_spec hex, fun u hu => Bool.eq_false_iff.mpr (Nat.find_min hex hu)⟩
  have ht64 : Nat.find hex < 64 := by
    by_contra h
    rw [testBit_eq_false_of_lt hx (Nat.le_of_not_lt h)] at ht
    cases ht
  rw [ffs, ffsFrom_eq ht hlow 64 0 (Nat.zero_le _) (by omega), two_pow_dvd_iff_testBit]
  constructor
  · intro hs j hj
    exact hlow j (by omega)
  · intro h
    by_contra hs
    rw [h _ (by omega)] at ht
    cases ht

/-- `0 < x < 2 ^ 64` なら、`s ≤ ffs x - 1` は `2 ^ s ∣ x` と同じ。 -/
theorem le_ffs_sub_one_iff {x : Nat} (hx0 : x ≠ 0) (hx : x < 2 ^ 64) (s : Nat) :
    s ≤ ffs x - 1 ↔ 2 ^ s ∣ x := by
  have h0 : 0 < ffs x := (lt_ffs_iff hx0 hx 0).mpr (by rw [Nat.pow_zero]; exact Nat.one_dvd _)
  rw [← lt_ffs_iff hx0 hx s]
  omega

end Infra.Word64
