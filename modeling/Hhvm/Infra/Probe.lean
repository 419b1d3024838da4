import Mathlib.Data.Nat.ModEq
import Mathlib.Data.Nat.Prime.Basic
import Mathlib.Data.Fintype.Card
import Mathlib.Data.Fintype.Fin
import Mathlib.Tactic.Ring

/-!
# 三角数による探索列

開番地法の hash 表で、衝突したときに `1, 2, 3, …` と歩幅を一つずつ増やして進む探索。
`t` 回目の位置は出発点から三角数 `t (t + 1) / 2` だけ進んだところになる。

表の大きさが 2 の冪なら、最初の `n` 回の位置は互いに異なり、表のすべての位置を一度ずつ通る。
ここではこれを一般の事実として示し、hash 表のモデル（`Hhvm/Array/`）はこれを使う。

* `probeSeq_injective` — 最初の `n` 回の位置は互いに異なる
* `probeSeq_surjective` — どの位置もいずれかの回に通る
* `land_pred_eq_mod` — 2 の冪から 1 引いた mask との `&&&` は剰余である
* `or_two_pow_mod` — mask より上の bit は剰余に効かない
-/

namespace Infra.Probe

/-- 出発点 `s`、大きさ `n` の表での `t` 回目の位置。 -/
def probeSeq (n s t : Nat) : Nat := (s + t * (t + 1) / 2) % n

theorem probeSeq_zero (n s : Nat) : probeSeq n s 0 = s % n := by
  simp [probeSeq]

theorem probeSeq_lt {n : Nat} (hn : 0 < n) (s t : Nat) : probeSeq n s t < n :=
  Nat.mod_lt _ hn

/-- 一歩進むと歩幅 `t + 1` だけ進む。実装のループが計算するのはこの漸化式である。 -/
theorem probeSeq_succ (n s t : Nat) :
    (probeSeq n s t + (t + 1)) % n = probeSeq n s (t + 1) := by
  have h : (t + 1) * (t + 1 + 1) / 2 = t * (t + 1) / 2 + (t + 1) := by
    have h2 : (t + 1) * (t + 1 + 1) = t * (t + 1) + 2 * (t + 1) := by ring
    rw [h2, Nat.add_mul_div_left _ _ (by decide)]
  unfold probeSeq
  rw [h, Nat.mod_add_mod, Nat.add_assoc]

/-- 出発点は剰余で見てよい。 -/
theorem probeSeq_mod (n s t : Nat) : probeSeq n (s % n) t = probeSeq n s t := by
  unfold probeSeq
  rw [Nat.mod_add_mod]

/-- 三角数の差の 2 倍は `(b - a) (a + b + 1)` である。 -/
theorem two_mul_tri_sub {a b : Nat} (h : a ≤ b) :
    2 * (b * (b + 1) / 2 - a * (a + 1) / 2) = (b - a) * (a + b + 1) := by
  have ha := Nat.two_mul_div_two_of_even (Nat.even_mul_succ_self a)
  have hb := Nat.two_mul_div_two_of_even (Nat.even_mul_succ_self b)
  have hle : a * (a + 1) ≤ b * (b + 1) := Nat.mul_le_mul h (by omega)
  rw [Nat.mul_sub, ha, hb]
  obtain ⟨c, rfl⟩ := Nat.exists_eq_add_of_le h
  have hexp : (a + c) * (a + c + 1) = a * (a + 1) + c * (a + (a + c) + 1) := by ring
  rw [Nat.add_sub_cancel_left, hexp]
  omega

/-- `2 ^ (k + 1)` が `x * y` を割り、`x` と `y` の一方が奇数なら、他方を割る。 -/
theorem pow_dvd_of_dvd_mul_odd {k x y : Nat} (hd : 2 ^ (k + 1) ∣ x * y)
    (hxy : Odd (x + y)) : 2 ^ (k + 1) ∣ x ∨ 2 ^ (k + 1) ∣ y := by
  rcases Nat.even_or_odd x with hx | hx
  · have hy : Odd y := by
      obtain ⟨a, ha⟩ := hx
      obtain ⟨b, hb⟩ := hxy
      exact ⟨b - a, by omega⟩
    exact Or.inl ((Nat.Coprime.pow_left (k + 1) (Nat.coprime_two_left.mpr hy)).dvd_of_dvd_mul_right hd)
  · exact Or.inr ((Nat.Coprime.pow_left (k + 1) (Nat.coprime_two_left.mpr hx)).dvd_of_dvd_mul_left hd)

/-- **最初の `2 ^ k` 回の位置は互いに異なる。** -/
theorem probeSeq_injective {k s a b : Nat} (ha : a < 2 ^ k) (hb : b < 2 ^ k)
    (heq : probeSeq (2 ^ k) s a = probeSeq (2 ^ k) s b) : a = b := by
  -- `a < b` の場合に矛盾を出せば足りる
  suffices key : ∀ a b, a < b → b < 2 ^ k →
      probeSeq (2 ^ k) s a = probeSeq (2 ^ k) s b → False by
    rcases Nat.lt_trichotomy a b with h | h | h
    · exact (key a b h hb heq).elim
    · exact h
    · exact (key b a h ha heq.symm).elim
  intro a b hab hb heq
  have hle : a * (a + 1) / 2 ≤ b * (b + 1) / 2 :=
    Nat.div_le_div_right (Nat.mul_le_mul hab.le (by omega))
  have hmod : a * (a + 1) / 2 ≡ b * (b + 1) / 2 [MOD 2 ^ k] :=
    Nat.ModEq.add_left_cancel' s heq
  have hdvd : 2 ^ k ∣ b * (b + 1) / 2 - a * (a + 1) / 2 := (Nat.modEq_iff_dvd' hle).mp hmod
  have hdvd2 : 2 ^ (k + 1) ∣ (b - a) * (a + b + 1) := by
    rw [← two_mul_tri_sub hab.le, Nat.pow_succ, Nat.mul_comm]
    exact Nat.mul_dvd_mul_left 2 hdvd
  have hodd : Odd (b - a + (a + b + 1)) := ⟨b, by omega⟩
  have hpow : 2 ^ k < 2 ^ (k + 1) := Nat.pow_lt_pow_right (by decide) (by omega)
  rcases pow_dvd_of_dvd_mul_odd hdvd2 hodd with h | h
  · have := Nat.le_of_dvd (by omega) h
    omega
  · have := Nat.le_of_dvd (by omega) h
    rw [Nat.pow_succ] at this
    omega

/-- **どの位置も、最初の `2 ^ k` 回のどこかで通る。** -/
theorem probeSeq_surjective (k s j : Nat) (hj : j < 2 ^ k) :
    ∃ t, t < 2 ^ k ∧ probeSeq (2 ^ k) s t = j := by
  have hpos : 0 < 2 ^ k := Nat.two_pow_pos k
  let f : Fin (2 ^ k) → Fin (2 ^ k) := fun t => ⟨probeSeq (2 ^ k) s t, probeSeq_lt hpos s t⟩
  have hf : Function.Injective f := by
    intro a b hab
    exact Fin.ext (probeSeq_injective a.isLt b.isLt (congrArg Fin.val hab))
  obtain ⟨t, ht⟩ := Finite.surjective_of_injective hf ⟨j, hj⟩
  exact ⟨t, t.isLt, congrArg Fin.val ht⟩

/-- 剰余を取る冪より上の bit を立てても、剰余は変わらない。 -/
theorem or_two_pow_mod {x n m : Nat} (h : m ≤ n) : (x ||| 2 ^ n) % 2 ^ m = x % 2 ^ m := by
  apply Nat.eq_of_testBit_eq
  intro i
  rw [Nat.testBit_mod_two_pow, Nat.testBit_mod_two_pow, Nat.testBit_or, Nat.testBit_two_pow]
  by_cases hi : i < m
  · have hne : ¬ n = i := by omega
    simp [hi, hne]
  · simp [hi]

/-- 2 の冪から 1 引いた mask との `&&&` は剰余である。 -/
theorem land_pred_eq_mod (x k : Nat) : x &&& (2 ^ k - 1) = x % 2 ^ k :=
  Nat.and_two_pow_sub_one_eq_mod x k

end Infra.Probe
